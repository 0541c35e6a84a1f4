import FontTrace.CommandLine.Switch
import FontTrace.Text.Scan

/-!
# FontTrace.CommandLine.Argument

The words of a command line as arguments.

A word is an operand, a switch by its name (`--upm`, `--upm=1000`), or a cluster
of letters (`-vvs`, `-sFILE`, `-s=FILE`).  A switch that has a value, but not in
its own word, takes the next word, which must not look like a switch.  After the
word `--` all are operands.

What cannot be understood becomes an argument of its own.  What stands before it
still counts: a request for help is answered even if nonsense follows.
-/

namespace FontTrace

/-- A part of a command line. -/
inductive Argument where
  | operand (text : String)
  | flag (s : Switch)
  | value (s : Switch) (text : String)
  | unknown
deriving DecidableEq, Repr

namespace Argument

/-- The arguments in one word, and a switch whose value has to follow. -/
abbrev Word := List Argument × Option Switch

/-- The switches in a cluster of letters.  The first one that has a value takes
the rest of the cluster for it, less an equals sign. -/
def ofLetters : List Char → Word
  | [] => ([], none)
  | c :: cs =>
    match Switch.ofLetter? c with
    | none => ([.unknown], none)
    | some s =>
      if s.takesValue then
        match cs with
        | [] => ([], some s)
        | '=' :: text | text => ([.value s (String.ofList text)], none)
      else
        let (rest, waiting) := ofLetters cs
        (.flag s :: rest, waiting)

/-- The switch of a name, with a value if one is written behind it. -/
def ofNamed (name : List Char) (given : Option (List Char)) : Word :=
  match Switch.ofName? (String.ofList name), given with
  | none, _ => ([.unknown], none)
  | some s, none => if s.takesValue then ([], some s) else ([.flag s], none)
  | some s, some text =>
    if s.takesValue then ([.value s (String.ofList text)], none) else ([.unknown], none)

/-- The arguments in a word. -/
def ofWord (word : String) : Word :=
  match word.toList with
  | '-' :: '-' :: cs =>
    match splitAtFirst ['='] cs with
    | some (name, text) => ofNamed name (some text)
    | none => ofNamed cs none
  | '-' :: c :: cs => ofLetters (c :: cs)
  | _ => ([.operand word], none)

/-- Whether a word is written like a switch; a hyphen alone is not. -/
def isSwitchLike (word : String) : Bool := word.startsWith "-" && word != "-"

/-- The arguments in words, the first of which may be the value of a switch. -/
def ofWordsFrom : Option Switch → List String → List Argument
  | none, [] => []
  | some _, [] => [.unknown]
  | some s, word :: words =>
    if isSwitchLike word then [.unknown] else .value s word :: ofWordsFrom none words
  | none, word :: words =>
    if word = "--" then words.map .operand
    else
      let (here, waiting) := ofWord word
      here ++ ofWordsFrom waiting words

/-- The arguments in the words of a command line. -/
def ofWords (words : List String) : List Argument := ofWordsFrom none words

end Argument

end FontTrace
