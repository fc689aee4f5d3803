/-
# Reading command lines

`Grammar.go` goes through the words of a command line from left to right.  An option
takes its value from its own word or from the next one, if that is no option.  The first
words that can be the operand are the operand.  `Grammar.known` also gives the words that
nothing has a use for, and `Grammar.read` refuses them.
-/

import TweakEngine.CommandLine.Grammar

namespace TweakEngine
namespace CommandLine

/-- How many of the next words are an operand; none unless there is a plain word among
them. -/
def Extent.reach {σ : Type} (e : Extent) (ws : List (Word σ)) : Option Nat :=
  let lead := (ws.takeWhile fun w => w.mark.isDashes).length
  match ws.drop lead with
  | [] => none
  | w :: later =>
    if !w.mark.isPlain then none
    else some (match e with
      | .one => lead + 1 + (later.takeWhile fun w => w.mark.isDashes).length
      | .several =>
        lead + 1 + (later.takeWhile fun w => w.mark.isDashes || w.mark.isPlain).length
      | .rest => ws.length)

namespace Grammar

variable {σ : Type}

/-- An option in use, with its value. -/
abbrev Use (σ : Type) := Switch σ × Option String

/-- The options that one word stands for, and how many of the next words are values. -/
def uses (g : Grammar σ) (next : List (Word σ)) (s : Switch σ) (letter : Bool) :
    Option (List Char) → Except Stop (List (Use σ) × Nat)
  | none =>
    if !s.effect.takesValue then .ok ([(s, none)], 0)
    else match next with
      | w :: _ =>
        if w.mark.isPlain then .ok ([(s, some w.text)], 1)
        else g.refuseArgument s.title "expected one argument"
      | [] => g.refuseArgument s.title "expected one argument"
  | some value =>
    if s.effect.takesValue then .ok ([(s, some (String.ofList value))], 0)
    else
      let refusal : Except Stop (List (Use σ) × Nat) :=
        g.refuseArgument s.title
          ("ignored explicit argument " ++ Text.quoted (String.ofList value))
      match letter, value with
      | true, c :: more =>
        match g.find? (String.ofList ['-', c]) with
        | none => refusal
        | some other => do
          let (found, taken) ← match more with
            | [] => uses g next other true none
            | d :: ds => uses g next other true (some (d :: ds))
          return ((s, none) :: found, taken)
      | _, _ => refusal
termination_by value => match value with
  | none => 0
  | some cs => cs.length + 1

/-- Uses an option. -/
def apply (g : Grammar σ) (state : σ) : Use σ → Except Stop σ
  | (s, value) => match s.effect with
    | .mark change => .ok (change state)
    | .help => .error (.shown g.help)
    | .shown text => .error (.shown text)
    | .value read =>
      match read (value.filter (· ≠ "--")) state with
      | .ok state => .ok state
      | .error text => g.refuseArgument s.title text

/-- Reads the operand out of its words; the end of the options does not belong to it. -/
def readOperand (g : Grammar σ) (o : Operand σ) (taken : List (Word σ)) (state : σ) :
    Except Stop (σ × List String) :=
  let texts := taken.map Word.text
  let texts := if o.extent = .rest then texts else texts.erase "--"
  match o.read texts state with
  | .ok r => .ok r
  | .error (.about text) => g.refuseArgument o.name text
  | .error (.stopped stop) => .error stop

/-- Goes through the words.  Gives the operand too if it is still missing, and the words
without a use. -/
def go (g : Grammar σ) : List (Word σ) → σ → Option (Operand σ) →
    Except Stop (σ × Option (Operand σ) × List String)
  | [], state, missing => .ok (state, missing, [])
  | w :: later, state, missing => do
    let unused (_ : Unit) : Except Stop (σ × Option (Operand σ) × List String) := do
      let (state, missing, extra) ← go g later state missing
      return (state, missing, w.text :: extra)
    match w.mark with
    | .option none _ _ => unused ()
    | .option (some s) letter value => do
      let (found, taken) ← g.uses later s letter value
      go g (later.drop taken) (← found.foldlM g.apply state) missing
    | _ =>
      match missing.bind fun o => (o.extent.reach (w :: later)).map fun n => (o, n) with
      | none => unused ()
      | some (o, n) => do
        let (state, extra) ← g.readOperand o ((w :: later).take n) state
        let (state, missing, more) ← go g (later.drop (n - 1)) state none
        return (state, missing, more ++ extra)
termination_by ws => ws.length
decreasing_by all_goals simp only [List.length_cons, List.length_drop]; omega

/-- What a command line gives, and the words that nothing has a use for. -/
def known (g : Grammar σ) (args : List String) (initial : σ) : Except Stop (σ × List String) := do
  let (state, missing, extra) ← g.go (← g.words args) initial g.operand
  match missing with
  | some o =>
    if o.required then g.refuse ("the following arguments are required: " ++ o.name)
    else return (state, extra)
  | none => return (state, extra)

/-- What a command line gives. -/
def read (g : Grammar σ) (args : List String) (initial : σ) : Except Stop σ := do
  match ← g.known args initial with
  | (state, []) => return state
  | (_, extra) => g.refuse ("unrecognized arguments: " ++ Text.join " " extra)

end Grammar
end CommandLine
end TweakEngine
