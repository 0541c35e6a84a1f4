/-!
# FontTrace.Xml

XML documents: elements that hold either other elements or a text.  An element
stands on lines of its own, indented by a tab a level.
-/

namespace FontTrace

/-- An element. -/
inductive Xml where
  | element (name : String) (attributes : List (String × String)) (children : List Xml)
  | leaf (name text : String)
deriving Inhabited

namespace Xml

/-- A character inside a text or an attribute. -/
def escaped (c : Char) : String :=
  if c = '&' then "&amp;"
  else if c = '<' then "&lt;"
  else if c = '>' then "&gt;"
  else if c = '"' then "&quot;"
  else String.singleton c

/-- A text inside a document. -/
def escapedText (s : String) : String := String.join (s.toList.map escaped)

/-- The name and the attributes in a tag. -/
def tagHead (name : String) (attributes : List (String × String)) : String :=
  name ++ String.join (attributes.map fun (k, v) => s!" {k}=\"" ++ escapedText v ++ "\"")

/-- The lines of an element that stands at the given level. -/
def renderAt (level : Nat) : Xml → String
  | leaf name text =>
    String.ofList (List.replicate level '\t') ++ s!"<{name}>" ++ escapedText text ++ s!"</{name}>\n"
  | element name attributes [] =>
    String.ofList (List.replicate level '\t') ++ s!"<{tagHead name attributes}/>\n"
  | element name attributes children =>
    let indent := String.ofList (List.replicate level '\t')
    let inner := String.join (children.attach.map fun ⟨x, _⟩ => renderAt (level + 1) x)
    indent ++ s!"<{tagHead name attributes}>\n" ++ inner ++ indent ++ s!"</{name}>\n"
termination_by x => sizeOf x
decreasing_by
  simp_wf
  rename_i h
  have := List.sizeOf_lt_of_mem h
  omega

/-- The document of an element. -/
def render (x : Xml) : String := "<?xml version=\"1.0\" encoding=\"UTF-8\"?>\n" ++ x.renderAt 0

end Xml

end FontTrace
