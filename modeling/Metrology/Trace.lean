/-! # Traces

A trace is the list of the steps that an operation took, oldest first. A step has a kind and details whose
type depends on what is traced.
-/
namespace Metrology

structure Step (δ : Type) where
  kind : String
  detail : δ

abbrev Trace (δ : Type) := List (Step δ)

namespace Trace

variable {δ : Type}

def add (t : Trace δ) (kind : String) (detail : δ) : Trace δ := t ++ [⟨kind, detail⟩]

def kinds (t : Trace δ) : List String := t.map Step.kind

def last? (t : Trace δ) (kind : Option String) : Option (Step δ) :=
  t.reverse.find? fun s => kind.all fun k => k == s.kind

end Trace

end Metrology
