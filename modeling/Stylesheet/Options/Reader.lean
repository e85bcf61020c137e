import Stylesheet.Json.Members
import Stylesheet.Options.Basic

/-!
# Options from JSON

Options are given as an object with some of the fields, or as an array
with the first few values in order. Fields with other names are passed
over, but each option can be given once only.
-/

namespace Stylesheet

namespace Options

/-- **The options with their names**, in order. -/
def fields : List (String × (Options → Bool → Options)) :=
  [("strict", fun o b => { o with strict := b }),
    ("starHack", fun o b => { o with starHack := b }),
    ("underscoreHack", fun o b => { o with underscoreHack := b }),
    ("ieFilters", fun o b => { o with ieFilters := b }),
    ("emptyDocument", fun o b => { o with emptyDocument := b }),
    ("topDocOnly", fun o b => { o with topDocOnly := b }),
    ("reuseCache", fun o b => { o with reuseCache := b }),
    ("noValidation", fun o b => { o with noValidation := b })]

/-- Options from the items of an array. -/
def ofItems (members : List Json.Member) : Option Options := do
  let flags ← members.mapM (·.flag)
  guard (flags.length ≤ fields.length)
  return (fields.zip flags).foldl (fun o (field, b) => field.2 o b) {}

/-- One more field of an object, given the names of the options before
it. -/
def addField (sofar : Options × List String) (m : Json.Member) :
    Option (Options × List String) := do
  let name := String.ofList (← Json.decode? (← m.name))
  match fields.lookup name with
  | none => return sofar
  | some set =>
    guard (!sofar.2.contains name)
    return (set sofar.1 (← m.flag), name :: sofar.2)

/-- **Options from JSON text.** -/
def ofJson? (text : String) : Option Options := do
  let (isObject, members) ← Json.members? text
  if isObject then
    let (options, _) ← members.foldlM addField ({}, [])
    return options
  else ofItems members

end Options

end Stylesheet
