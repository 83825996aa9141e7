import RegisterMap.Markup.QualifiedName
import RegisterMap.Markup.UriReference

/-!
# Namespaces

An attribute of a start tag can bind a prefix, or the absence of one, to a namespace. The binding
holds in the element and everything inside of it. The prefix `xml` is always bound to its own
namespace, and some other bindings may not be made.
-/

namespace RegisterMap.Markup

/-- The namespaces in scope, innermost first. The default namespace has no prefix. -/
abbrev Scope := List (Option (List Char) × List Char)

/-- The prefix with a meaning of its own. -/
def xmlSpace : List Char := "xml".toList

/-- The prefix of bindings. -/
def bindingSpace : List Char := "xmlns".toList

/-- The namespace of the prefix `xml`. -/
def xmlNamespace : List Char := "http://www.w3.org/XML/1998/namespace".toList

/-- The namespace that bindings are said to be in. -/
def bindingNamespace : List Char := "http://www.w3.org/2000/xmlns/".toList

/-- A name together with its namespace. -/
def expandedName (space main : List Char) : String :=
  if space.isEmpty then String.ofList main
  else "\x7b" ++ String.ofList space ++ "\x7d" ++ String.ofList main

/-- What an attribute binds, if it is a binding: a prefix or the absence of one. -/
def QualifiedName.boundPrefix? (q : QualifiedName) : Option (Option (List Char)) :=
  if q.space = none ∧ q.main = bindingSpace then some none
  else if q.space = some bindingSpace then some (some q.main)
  else none

namespace Scope

/-- The namespace of a prefix. -/
def find? (scope : Scope) (space : List Char) : Option (List Char) :=
  if space = xmlSpace then some xmlNamespace else scope.lookup (some space)

/-- The binding that an attribute makes. A binding that may not be made is a fault and has no
effect; a namespace without a scheme is an oddity, or a fault if it is no reference at all. -/
def binding : Option (List Char) → List Char → Remarked Scope
  | none, uri => do
    match uri, UriReference.ofChars? uri with
    | [], _ | _, some .absolute => pure ()
    | _, some .relative => Remarked.remark .oddity
    | _, none => Remarked.remark .fault
    if uri = xmlNamespace ∨ uri = bindingNamespace then
      Remarked.remark .fault
      return []
    else return [(none, uri)]
  | some space, uri =>
    if space = xmlSpace then do
      Remarked.remarkIf (uri != xmlNamespace) .fault
      return []
    else if space = bindingSpace ∨ uri = xmlNamespace ∨ uri = bindingNamespace ∨ uri = [] then do
      Remarked.remark .fault
      return []
    else do
      Remarked.remarkIf (UriReference.ofChars? uri).isNone .fault
      return [(some space, uri)]

/-- The namespace and the main part of the name of an attribute. Without a prefix it has no
namespace; a prefix that is not bound is a fault and stays a part of the name. -/
def attributeName (scope : Scope) (q : QualifiedName) : Remarked (List Char × List Char) :=
  match q.space with
  | none => pure ([], q.main)
  | some space =>
    match scope.find? space with
    | some uri => pure (uri, q.main)
    | none => do
      Remarked.remark .fault
      return ([], space ++ ':' :: q.main)

/-- The same for the name of an element, which is in the default namespace without a prefix. -/
def elementName (scope : Scope) (q : QualifiedName) : Remarked (List Char × List Char) :=
  match q.space with
  | none => pure ((scope.lookup none).getD [], q.main)
  | some _ => scope.attributeName q

end Scope

end RegisterMap.Markup
