import Guion.Diagnostic.Basic

/-!
# Guion.Diagnostic.Collector — diagnostics in the order they were found

A collector only ever grows at its end. Its verdict is the list of its errors: notes and warnings
are kept, but do not count.
-/

namespace Guion

/-- An ordered list of diagnostics. -/
structure Collector where
  items : List Diagnostic := []
  deriving Inhabited

namespace Collector

/-- Appends diagnostics in the order given. -/
def add (c : Collector) (ds : List Diagnostic) : Collector :=
  ⟨c.items ++ ds⟩

/-- The number of diagnostics. -/
def size (c : Collector) : Nat :=
  c.items.length

/-- The diagnostics that are errors. -/
def errors (c : Collector) : List Diagnostic :=
  c.items.filter (·.severity.isError)

/-- Whether any diagnostic is an error. -/
def hasErrors (c : Collector) : Bool :=
  c.items.any (·.severity.isError)

/-- The texts of the errors, one a line, or `none` when there is no error. -/
def errorText? (c : Collector) : Option String :=
  if c.errors.isEmpty then none
  else some ("\n".intercalate (c.errors.map Diagnostic.toText))

end Collector

end Guion
