import FcgiAppserver.ByteStrings

namespace FcgiAppserver.Xml

open ByteStrings

inductive XMLNode
  | element (name : Bytes) (attrs : List (Bytes × Bytes)) (children : List XMLNode)
  | text (content : Bytes)

def XMLNode.new (name : Bytes) : XMLNode := .element name [] []

def XMLNode.add : XMLNode → XMLNode → XMLNode
  | .element name attrs children, node => .element name attrs (children ++ [node])
  | .text content, _ => .text content

def XMLNode.addText (node : XMLNode) (content : Bytes) : XMLNode := node.add (.text content)

def XMLNode.setAttr : XMLNode → Bytes → Bytes → XMLNode
  | .element name attrs children, attr, value => .element name (attrs ++ [(attr, value)]) children
  | .text content, _, _ => .text content

structure XMLDoc where
  version : Bytes
  pis : List (Bytes × Bytes)
  rootns : Option Bytes
  root : XMLNode

def XMLDoc.new (rootname : Bytes) (rootns : Option Bytes) : XMLDoc where
  version := ascii "1.0"
  pis := []
  rootns := rootns
  root := .new rootname

def XMLDoc.add (doc : XMLDoc) (node : XMLNode) : XMLDoc := { doc with root := doc.root.add node }

def XMLDoc.addPi (doc : XMLDoc) (name content : Bytes) : XMLDoc := { doc with pis := doc.pis ++ [(name, content)] }

/-- The XML library during one turn of a worker thread, which dumps one document at most. -/
structure Libxml where
  fails : Bool
  text : XMLDoc → Bytes

def Libxml.xmlDocDumpMemory (xml : Libxml) (doc : XMLDoc) : Option Bytes :=
  if xml.fails then none else some (xml.text doc)

end FcgiAppserver.Xml
