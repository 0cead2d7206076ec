import SchemaDoc.Xml.Fault

/-!
# Why a document gives no schema

Loading a schema document fails where its text is no document, where an element lacks an attribute
that it must have, and where an attribute is not written as its kind demands.
-/
namespace SchemaDoc

inductive LoadFault
  | malformedDocument (fault : Xml.Fault Xml.Position)
  | missingAttribute (element name : String)
  | malformedAttribute (element name value : String)
  deriving DecidableEq, Repr

namespace LoadFault

/-- A stable name for the kind of a fault. -/
def code : LoadFault → String
  | .malformedDocument _ => "DOCUMENT_PARSE_ERROR"
  | .missingAttribute _ _ => "MISSING_ATTRIBUTE"
  | .malformedAttribute _ _ _ => "MALFORMED_ATTRIBUTE"

def message : LoadFault → String
  | .malformedDocument fault => "XML parse error: " ++ fault.message
  | .missingAttribute element name =>
    "<" ++ element ++ "> is missing required attribute '" ++ name ++ "'"
  | .malformedAttribute element name value =>
    "<" ++ element ++ "> attribute '" ++ name ++ "' has malformed value '" ++ value ++ "'"

/-- The sentences from the fault down to its last cause. -/
def messages (fault : LoadFault) : List String :=
  match fault with
  | .malformedDocument inner => [fault.message, inner.message]
  | _ => [fault.message]

end LoadFault

end SchemaDoc
