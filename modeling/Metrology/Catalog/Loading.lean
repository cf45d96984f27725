import Metrology.Catalog.Reading
import Metrology.Yaml.Document

/-! # Catalogs from text

A catalog is read from the value of a document. A document that is void counts as an empty catalog.
-/
namespace Metrology

inductive LoadError where
  | read (e : ReadError)
  /-- The document holds a tagged scalar that is not what its tag says. -/
  | document (e : Yaml.DocumentError)

def LoadError.refused (e : CatalogError) : LoadError := .read (.refused e)

def Catalog.document (v : Yaml.Value) : Yaml.Value := if v.isVoid then .map [] else v

def Catalog.readDocument (text : String) : Except LoadError Yaml.Value :=
  match Yaml.readDocument text with
  | .error .malformed => .error (.refused .malformedDocument)
  | .error e => .error (.document e)
  | .ok v => .ok (document v)

end Metrology
