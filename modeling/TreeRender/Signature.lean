import TreeRender.Node.Basic

/-!
# Signatures

The signature of an element spells out its tag, its attributes in order, its text directive and its
children. Texts are written behind their length in bytes, so that no content can pass for structure.
Functions are written as opaque marks.
-/

namespace TreeRender.Signature

variable {F N : Type}

def ofText (s : String) : List Char := Nat.toDigits 10 s.utf8ByteSize ++ ':' :: s.toList

def ofDeclarations : List (String × String) → List Char
  | [] => []
  | (property, value) :: rest => ofText property ++ ofText value ++ ofDeclarations rest

def ofValue : AttrValue F → List Char
  | .null => ['n']
  | .str text => 's' :: ofText text
  | .number x => '#' :: (Decimal.text x).toList
  | .bool b => [if b then 't' else 'f']
  | .style declarations => '(' :: ofDeclarations declarations ++ [')']
  | .handler _ => ['!']

def ofAttributes : List (String × AttrValue F) → List Char
  | [] => []
  | (key, value) :: rest => ofText key ++ '=' :: ofValue value ++ ',' :: ofAttributes rest

def ofDirective : Option (Directive F) → List Char
  | none => []
  | some (.literal text) => ['t', 'e', 'x', 't', '='] ++ ofText text
  | some (.computed _) => ['t', 'e', 'x', 't', '=', '!']

def ofHead (tag : String) (attributes : List (String × AttrValue F))
    (directive : Option (Directive F)) : List Char :=
  ofText tag ++ '\x7b' :: ofAttributes attributes ++ ofDirective directive ++ ['\x7d']

mutual

def ofNode : Node F → List Char
  | .empty => ['_']
  | .text value => 't' :: ofText value.text
  | .component _ => ['!']
  | .collection nodes => '[' :: ofNodes nodes ++ [']']
  | .element ⟨tag, attributes, directive, none, _⟩ => '<' :: ofHead tag attributes directive ++ ['>']
  | .element ⟨tag, attributes, directive, some child, _⟩ =>
    '<' :: ofHead tag attributes directive ++ ofNode child ++ ['>']

def ofNodes : List (Node F) → List Char
  | [] => []
  | n :: rest => ofNode n ++ ofNodes rest

end

end TreeRender.Signature

namespace TreeRender

variable {F : Type}

/-- The cache key of an element. Only meaningful for one without functions. -/
def Element.signature (e : Element F (Node F)) : String :=
  String.ofList <| Signature.ofHead e.tag e.attributes e.text ++
    match e.children with
    | none => []
    | some child => Signature.ofNode child

end TreeRender
