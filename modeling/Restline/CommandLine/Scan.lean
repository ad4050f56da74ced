import Restline.Text.Segments

/-!
A first look at the command line, before it is parsed: which document a command needs depends on the
command, so the words are scanned for the command's segments, for the version, and for the options that
say where documents are.

* `Scan.apiPosition?` : where the tree of generated commands begins.
* `Scan.target` : the segments and the version that follow.
* `Scan.optionValue?` : the last value of an option.
-/

set_option autoImplicit false

namespace Restline.Scan

/-- The options before a command that take a value as a word of its own. -/
def valueOptions : List String := ["--profile", "-p", "--endpoint", "--metadata"]

/-- The position of the first word that is neither an option nor a value of one, if it is `api`. -/
def apiPosition? : List String → Option Nat
  | [] => none
  | word :: rest =>
    if valueOptions.contains word then
      match rest with
      | [] => none
      | _ :: rest => (apiPosition? rest).map (· + 2)
    else if word.startsWith "-" then (apiPosition? rest).map (· + 1)
    else if word = "api" then some 0
    else none

/-- What follows the equals sign when a word gives an option with its value. -/
def joinedValue? (name word : String) : Option String :=
  if word.startsWith (name ++ "=") then some ((word.drop (name.length + 1)).toString) else none

/-- The value that a word gives for an option, together with the word that follows it. -/
def valueAt? (names : List String) (word : String) (next : Option String) : Option String :=
  let joined := (names.filter (·.startsWith "--")).findSome? (joinedValue? · word)
  joined.or (if names.contains word then next else none)

/-- The last value of an option; every word counts, also one that is the value of another option. -/
def optionValue? (names : List String) : List String → Option String
  | [] => none
  | word :: rest => (optionValue? names rest).or (valueAt? names word rest.head?)

/-- The words after `api` up to the first option, and the last version that the words give. -/
def target (words : List String) : List String × Option String :=
  match apiPosition? words with
  | none => ([], none)
  | some n =>
    let tail := words.drop (n + 1)
    (tail.takeWhile (fun w => !w.startsWith "-"), optionValue? ["--api-version"] tail)

end Restline.Scan
