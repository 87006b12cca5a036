import Guion.Log.Record
import Guion.Parser.Grammar

/-!
# Guion.Parser.Journal — what the parser logs

Reading a program leaves a journal: that it began, each error as it was found, and that it ended,
with the numbers of statements and errors. All of it is for debugging.
-/

namespace Guion.Parser

/-- The attribute that every record of the parser carries. -/
def component : Log.Attribute :=
  ⟨"component", .text "parser"⟩

/-- The record of an error. -/
def errorRecord (e : ParseError) : Log.Record where
  level := .debug
  message := "parse diagnostic"
  attributes :=
    [⟨"kind", .text e.kind.name⟩, ⟨"message", .text e.message⟩, ⟨"line", .int e.span.line⟩,
     ⟨"column", .int e.span.column⟩]

/-- The journal of reading a program of the file `file`, with the errors found on the way. -/
def journal (file : Text.Raw) (program : Program) (errors : List ParseError) : List Log.Record :=
  ⟨.debug, "parse started", [⟨"filename", .text file⟩]⟩ :: errors.map errorRecord ++
    [⟨.debug, "parse finished",
      [⟨"filename", .text file⟩, ⟨"statements", .int program.statements.length⟩,
       ⟨"diagnostics", .int errors.length⟩]⟩]

end Guion.Parser
