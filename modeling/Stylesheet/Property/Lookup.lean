import Stylesheet.Property.Table.Descriptors
import Stylesheet.Property.Table.Functions
import Stylesheet.Property.Table.Layout
import Stylesheet.Property.Table.Motion
import Stylesheet.Property.Table.Paint
import Stylesheet.Property.Table.Text
import Stylesheet.Property.Table.Types
import Stylesheet.Text.Basic

/-!
# Looking up definitions

The tables as one: properties, named types, at-rules and groups of
functions by their names. The names of properties and types are looked
up in small letters as given; those of groups and functions in any
letter case.
-/

namespace Stylesheet

namespace Property

/-- All properties and their definitions. -/
def table : List (String × Definition) :=
  Table.box ++ Table.layout ++ Table.text ++ Table.font ++ Table.paint ++ Table.border ++
    Table.motion ++ Table.interaction ++ Table.graphic ++ Table.vendor

/-- **The definition of a property.** -/
def definition? (name : String) : Option Definition := table.lookup name

/-- **The grammar of a named type**, its name with the brackets. -/
def typeGrammar? (name : String) : Option String := Table.types.lookup name

/-- The at-rule with descriptors of a given name. -/
def scope? (name : String) : Option Scope := Table.scopes.find? (·.name == name)

/-- The group of functions of a given name, in any letter case. -/
def functionGroup? (name : String) : Option FunctionGroup :=
  Table.functionGroups.find? (Text.eqIgnoreCase ·.name name)

end Property

namespace FunctionGroup

/-- The grammar of the arguments of a function of the group. -/
def argumentGrammar? (group : FunctionGroup) (name : String) : Option String :=
  (group.functions.find? fun entry => Text.eqIgnoreCase entry.1 name).map (·.2)

/-- The names of the functions, in the group's order. -/
def names (group : FunctionGroup) : List String := group.functions.map (·.1)

end FunctionGroup

end Stylesheet
