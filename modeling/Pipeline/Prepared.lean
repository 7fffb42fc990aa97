import Pipeline.Phrase
import Pipeline.Template

/-!
# Prepared phrases

A stage reads its phrase once, when it is built, and uses it for every item.  What goes wrong with
an item, at reading or at use, becomes a failure that names the phrase.
-/

namespace Pipeline

/-- The message for an expression that failed on an item. -/
def evaluationMessage (text : String) : String := "failed to evaluate expression: " ++ text ++ "."

/-- The message for a source that is no expression. -/
def compileMessage (text : String) : String := "failed to compile expression: " ++ text ++ "."

/-- The message for a command template that cannot be read or filled. -/
def templateMessage (text : String) : String :=
  "failed to evaluate command template: " ++ text ++ "."

/-- The message for a command that failed. -/
def commandMessage (text : String) : String := "failed to execute shell command: " ++ text

/-- A phrase ready for use: a constant text, an expression, or a failure on every use. -/
inductive Prepared where
  | constant (text : String)
  | expression (source : String) (evaluate : Bindings → Environment → Except String Item)
  | broken (failure : Failure)

namespace Prepared

/-- Reads a phrase. -/
def ofPhrase (evaluator : Evaluator) : Phrase → Prepared
  | .quoted tokens => .constant (Phrase.quoted tokens).text
  | .source s =>
    match evaluator.compile s with
    | .ok () => .expression s (evaluator.evaluate s)
    | .error cause => .broken { message := compileMessage s, cause }

/-- The item that a prepared phrase gives. -/
def call (p : Prepared) (env : Environment) (b : Bindings) : Item :=
  match p with
  | .constant text => .value (.text text)
  | .broken failure => .failure failure
  | .expression source evaluate =>
    match evaluate b env with
    | .ok item => item
    | .error cause => .failure { message := evaluationMessage source, cause }

end Prepared

/-- A command ready for use: a template, or a failure on every use. -/
structure PreparedCommand where
  text : String
  template : Except Failure Template
  evaluator : Evaluator

namespace PreparedCommand

/-- Reads a phrase as a command; a quoted one has no holes. -/
def ofPhrase (evaluator : Evaluator) (phrase : Phrase) : PreparedCommand where
  text := phrase.text
  template :=
    match phrase with
    | .quoted _ => .ok (.verbatim phrase.text)
    | .source s =>
      (Template.read s).mapError fun e => { message := templateMessage s, cause := e.message }
  evaluator

/-- The command text for these bindings, or the failure that takes its place. -/
def fill (c : PreparedCommand) (env : Environment) (b : Bindings) : Except Failure String :=
  match c.template with
  | .error failure => .error failure
  | .ok template =>
    (template.render b env c.evaluator).mapError fun cause =>
      { message := templateMessage c.text, cause }

/-- The item of a command's output: one line as a text, any other number as a list. -/
def shape (lines : List String) : Item :=
  match lines.filter (!·.isEmpty) with
  | [line] => .value (.text line)
  | lines => .value (.list (lines.map .text))

/-- The item of a command that was run. -/
def outcome (c : PreparedCommand) : Except String (List String) → Item
  | .ok lines => shape lines
  | .error cause => .failure { message := commandMessage c.text, cause }

end PreparedCommand

end Pipeline
