/-
# Grammars of command lines

A grammar has options, which stand anywhere, and at most one operand.  What is read goes
into a value `σ`: an option or an operand is a function on it.  A word that starts with a
dash is an option, also when just the beginning of a long name is given, when a value
follows after `=`, or when one-letter options stand together; after `--` every word is an
operand.  `Grammar.mark` says what a word is.
-/

import TweakEngine.Text.Blank
import TweakEngine.Text.Fold
import TweakEngine.Text.Quoted

namespace TweakEngine
namespace CommandLine

/-- Why reading a command line ends without a value. -/
inductive Stop
  /-- A text is shown, and that is all that was asked for. -/
  | shown (text : String)
  /-- The command line is refused; `usage` reminds of the grammar. -/
  | refused (program usage text : String)
  deriving DecidableEq, Repr

/-- What an option does. -/
inductive Effect (σ : Type)
  | mark (change : σ → σ)
  /-- Shows the help of the grammar. -/
  | help
  | shown (text : String)
  /-- Takes a value, which is missing when `--` is given for it. -/
  | value (read : Option String → σ → Except String σ)

/-- Whether an option takes a value. -/
def Effect.takesValue {σ : Type} : Effect σ → Bool
  | value _ => true
  | _ => false

/-- An option. -/
structure Switch (σ : Type) where
  names : List String
  effect : Effect σ
  about : String

/-- The name of an option in a refusal. -/
def Switch.title {σ : Type} (s : Switch σ) : String := Text.join "/" s.names

/-- How many words belong to an operand. -/
inductive Extent
  | one
  | several
  /-- Everything that follows, options too. -/
  | rest
  deriving DecidableEq, Repr

/-- What is wrong with an operand. -/
inductive Trouble
  | about (text : String)
  | stopped (stop : Stop)

/-- What stands on a command line beside the options. -/
structure Operand (σ : Type) where
  name : String
  extent : Extent
  required : Bool := true
  about : String
  /-- Reads the words of the operand; gives words back that it has no use for. -/
  read : List String → σ → Except Trouble (σ × List String)

/-- A grammar of command lines. -/
structure Grammar (σ : Type) where
  program : String
  about : String
  switches : List (Switch σ)
  operand : Option (Operand σ) := none

/-- What a word of a command line is. -/
inductive Mark (σ : Type)
  /-- The end of the options. -/
  | dashes
  | plain
  /-- An option, an unknown one too.  `letter` tells whether it has a one-letter name, and
  `value` is what stands in the same word. -/
  | option (which : Option (Switch σ)) (letter : Bool) (value : Option (List Char))

/-- A word of a command line. -/
structure Word (σ : Type) where
  text : String
  mark : Mark σ

namespace Mark

variable {σ : Type}

/-- Whether a word is no option and not the end of the options. -/
def isPlain : Mark σ → Bool
  | plain => true
  | _ => false

/-- Whether a word is the end of the options. -/
def isDashes : Mark σ → Bool
  | dashes => true
  | _ => false

end Mark

/-- Whether a text is a negative number with digits in front of its point or behind it.  A
line end after it does not matter. -/
def isNegativeNumber (s : String) : Bool :=
  let isDecimal (c : Char) : Bool := (Text.decimalDigit? c).isSome
  let shown := match s.toList.reverse with
    | '\n' :: cs => cs.reverse
    | _ => s.toList
  match shown with
  | '-' :: digits =>
    match Text.cutAt (· == '.') digits with
    | (whole, none) => whole ≠ [] && whole.all isDecimal
    | (whole, some part) => whole.all isDecimal && part ≠ [] && part.all isDecimal
  | _ => false

namespace Grammar

variable {σ : Type}

/-- The names of the options with what they stand for, in the order of the grammar. -/
def names (g : Grammar σ) : List (String × Switch σ) :=
  g.switches.flatMap fun s => s.names.map fun name => (name, s)

/-- The option with a name. -/
def find? (g : Grammar σ) (name : String) : Option (Switch σ) := g.names.lookup name

/-- Whether a name has one letter behind one dash. -/
def isLetterName (name : String) : Bool := (name.toList.drop 1).head? != some '-'

/-- A reminder of the grammar in one line. -/
def usage (g : Grammar σ) : String :=
  let option (s : Switch σ) : String :=
    " [" ++ s.names.headD "" ++ (if s.effect.takesValue then " VALUE]" else "]")
  let operand (o : Operand σ) : String := " " ++ o.name ++ (match o.extent with
    | .one => ""
    | _ => " ...")
  "usage: " ++ g.program ++ String.join (g.switches.map option) ++ (g.operand.map operand).getD ""

/-- The help of a grammar. -/
def help (g : Grammar σ) : String :=
  let line (title about : String) : String := "  " ++ title ++ "\n      " ++ about
  let operand := (g.operand.map fun o => ["operand:", line o.name o.about, ""]).getD []
  Text.join "\n" ([g.usage, "", g.about, ""] ++ operand ++ ["options:"] ++
    g.switches.map (fun s => line (Text.join ", " s.names) s.about)) ++ "\n"

/-- A refusal of a command line. -/
def refuse {α : Type} (g : Grammar σ) (text : String) : Except Stop α :=
  .error (.refused g.program (g.usage ++ "\n") text)

/-- A refusal because of one argument. -/
def refuseArgument {α : Type} (g : Grammar σ) (title text : String) : Except Stop α :=
  g.refuse ("argument " ++ title ++ ": " ++ text)

/-- The options that a word may stand for, by their names, with the value in the word.  The
beginning of a long name may stand for it; a one-letter option may have its value, or
further options, in the same word. -/
def completions (g : Grammar σ) (word : List Char) :
    List (String × Switch σ × Option (List Char)) :=
  match word with
  | '-' :: '-' :: _ =>
    let (start, value) := Text.cutAt (· == '=') word
    g.names.filterMap fun (name, s) =>
      if start.isPrefixOf name.toList then some (name, s, value) else none
  | _ =>
    g.names.filterMap fun (name, s) =>
      if name.toList = word.take 2 then some (name, s, some (word.drop 2))
      else if word.isPrefixOf name.toList then some (name, s, none)
      else none

/-- The option with exactly the name that stands before `=`. -/
def assigned? (g : Grammar σ) (word : List Char) : Option (Mark σ) :=
  match Text.cutAt (· == '=') word with
  | (name, some value) =>
    let name := String.ofList name
    (g.find? name).map fun s => .option (some s) (isLetterName name) (some value)
  | _ => none

/-- What a word before the end of the options is. -/
def mark (g : Grammar σ) (s : String) : Except Stop (Mark σ) :=
  let word := s.toList
  if word.head? ≠ some '-' then .ok .plain
  else if let some switch := g.find? s then .ok (.option (some switch) (isLetterName s) none)
  else if word.length = 1 then .ok .plain
  else if let some m := g.assigned? word then .ok m
  else match g.completions word with
    | [(name, switch, value)] => .ok (.option (some switch) (isLetterName name) value)
    | [] =>
      if isNegativeNumber s || word.contains ' ' then .ok .plain else .ok (.option none false none)
    | several => g.refuse ("ambiguous option: " ++ s ++ " could match " ++
        Text.join ", " (several.map fun c => c.1))

/-- The words of a command line. -/
def words (g : Grammar σ) : List String → Except Stop (List (Word σ))
  | [] => .ok []
  | s :: rest =>
    if s = "--" then .ok (⟨s, .dashes⟩ :: rest.map fun s => ⟨s, .plain⟩)
    else do
      let m ← g.mark s
      return ⟨s, m⟩ :: (← words g rest)

end Grammar
end CommandLine
end TweakEngine
