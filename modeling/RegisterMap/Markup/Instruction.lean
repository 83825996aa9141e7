import RegisterMap.Markup.QualifiedName

/-!
# Processing instructions

An instruction begins with the name of its target, and white space before anything else. Names that
begin with the letters `xml` in either case are reserved: the three letters alone are refused,
longer ones are an oddity, except for two that are in use. A colon in the name is a fault.
-/

namespace RegisterMap.Markup

/-- Read an instruction, which has no effect but remarks. -/
def readInstruction (raw : List Char) : Remarked Unit := do
  let (target, rest) := takeName raw
  Remarked.require (isName target && rest.head?.all isSpace)
  let name := String.ofList target
  Remarked.require (name.toLower != "xml")
  Remarked.remarkIf ((name.toLower.startsWith "xml") && name != "xml-stylesheet" &&
    name != "xml-model") .oddity
  Remarked.remarkIf (target.contains ':') .fault

end RegisterMap.Markup
