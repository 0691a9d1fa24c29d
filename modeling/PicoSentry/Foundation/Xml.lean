import PicoSentry.Foundation.Dict
import PicoSentry.Foundation.Text

namespace PicoSentry.Foundation.Xml

mutual

-- The text before the first child, and behind each child the text up to the next one.
inductive Element where
  | mk (tag : Str) (attrs : Dict Str Str) (text : Str) (children : Elements)

inductive Elements where
  | nil
  | cons (child : Element) (tail : Str) (rest : Elements)

end

namespace Element

def tag : Element → Str
  | .mk tag _ _ _ => tag

def text : Element → Str
  | .mk _ _ text _ => text

end Element

def Elements.toList : Elements → List Element
  | .nil => []
  | .cons child _ rest => child :: rest.toList

namespace Element

def children : Element → List Element
  | .mk _ _ _ children => children.toList

def findall (e : Element) (tag : Str) : List Element := e.children.filter fun child => child.tag = tag

def find (e : Element) (tag : Str) : Option Element := e.children.find? fun child => child.tag = tag

end Element

end PicoSentry.Foundation.Xml
