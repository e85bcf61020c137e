/-!
# Options

What a caller can ask of a parse. Every option is off by default.
-/

namespace Stylesheet

/-- **The options of a parse.** -/
structure Options where
  /-- Stop at the first error instead of reporting it and going on. -/
  strict : Bool := false
  /-- Take `*property` for a declaration. -/
  starHack : Bool := false
  /-- Take `_property` for a declaration of `property`. -/
  underscoreHack : Bool := false
  /-- Take `progid:` filters. -/
  ieFilters : Bool := false
  /-- Let `@document` go without a function. -/
  emptyDocument : Bool := false
  /-- Look at `@document` rules of the top level only, and pass over
  their bodies. -/
  topDocOnly : Bool := false
  /-- Reuse what earlier parses found in unchanged rules. -/
  reuseCache : Bool := false
  /-- Do not check declarations. -/
  noValidation : Bool := false
  deriving DecidableEq, Repr

end Stylesheet
