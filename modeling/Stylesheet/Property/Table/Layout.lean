import Stylesheet.Property.Definition

/-!
# Boxes and layout

Flexible boxes, grids, columns and pages; the size, the place and the
edges of boxes, and what applies to every element.
-/

namespace Stylesheet.Property.Table

/-- Flexible boxes, grids, columns and pages. -/
def layout : List (String × Definition) := [
  ("align-items", .grammar
    "normal | stretch | <baseline-position> | [ <overflow-position>? <self-position> ]"),
  ("align-content", .grammar <|
    "normal | <baseline-position> | <content-distribution> | <overflow-position>? " ++
      "<content-position>"),
  ("align-self", .grammar
    "auto | normal | stretch | <baseline-position> | <overflow-position>? <self-position>"),
  ("break-after", .grammar "<break-inside> | always | left | right | page | column"),
  ("break-before", .grammar "<break-after>"),
  ("break-inside", .grammar "auto | avoid | avoid-page | avoid-column"),
  ("column-count", .grammar "<int> | auto"),
  ("column-fill", .grammar "auto | balance"),
  ("column-gap", .grammar "normal | <len-pct>"),
  ("column-rule", .grammar "<border-shorthand>"),
  ("column-rule-color", .grammar "<color>"),
  ("column-rule-style", .grammar "<border-style>"),
  ("column-rule-width", .grammar "<border-width>"),
  ("column-span", .grammar "none | all"),
  ("column-width", .grammar "<len> | auto"),
  ("columns", .any),
  ("container", .grammar "<container-name> [ / <container-type> ]?"),
  ("container-name", .grammar "none | <custom-ident>+"),
  ("container-type", .grammar "normal || [ size | inline-size ]"),
  ("empty-cells", .grammar "show | hide"),
  ("flex", .grammar "none | [ <num>\x7b1,2\x7d || <width> ]"),
  ("flex-basis", .grammar "<width>"),
  ("flex-direction", .grammar "row | row-reverse | column | column-reverse"),
  ("flex-flow", .grammar "<flex-direction> || <flex-wrap>"),
  ("flex-grow", .grammar "<num>"),
  ("flex-shrink", .grammar "<num>"),
  ("flex-wrap", .grammar "nowrap | wrap | wrap-reverse"),
  ("gap", .grammar "<column-gap>\x7b1,2\x7d"),
  ("grid", .grammar <|
    "<grid-template> | <grid-template-rows> / [ auto-flow && dense? ] <grid-auto-columns>? | " ++
      "[ auto-flow && dense? ] <grid-auto-rows>? / <grid-template-columns>"),
  ("grid-area", .grammar "<grid-line> [ / <grid-line> ]\x7b0,3\x7d"),
  ("grid-auto-columns", .grammar "<track-size>+"),
  ("grid-auto-flow", .grammar "[ row | column ] || dense"),
  ("grid-auto-rows", .grammar "<track-size>+"),
  ("grid-column", .grammar "<grid-line> [ / <grid-line> ]?"),
  ("grid-column-end", .grammar "<grid-line>"),
  ("grid-column-gap", .any),
  ("grid-column-start", .grammar "<grid-line>"),
  ("grid-gap", .any),
  ("grid-row", .grammar "<grid-line> [ / <grid-line> ]?"),
  ("grid-row-end", .grammar "<grid-line>"),
  ("grid-row-gap", .any),
  ("grid-row-start", .grammar "<grid-line>"),
  ("grid-template", .grammar <|
    "none | [ <grid-template-rows> / <grid-template-columns> ] | [ <line-names>? <string> " ++
      "<track-size>? <line-names>? ]+ [ / <explicit-track-list> ]?"),
  ("grid-template-areas", .grammar "none | <string>+"),
  ("grid-template-columns", .grammar "<grid-template-rows>"),
  ("grid-template-rows", .grammar <|
    "none | <track-list> | <auto-track-list> | subgrid [ <line-names> | repeat( [ <int1+> | " ++
      "auto-fill ] , <line-names>+ ) ]*"),
  ("justify-content", .grammar <|
    "normal | <content-distribution> | <overflow-position>? [ <content-position> | left | " ++
      "right ]"),
  ("justify-items", .grammar <|
    "normal | stretch | <baseline-position> | [ <overflow-position>? <self-position> ] | [ " ++
      "legacy || [ left | right | center ] ]"),
  ("justify-self", .grammar <|
    "auto | normal | stretch | <baseline-position> | <overflow-position>? [ <self-position> " ++
      "| left | right ]"),
  ("order", .grammar "<int>"),
  ("page", .grammar "auto | <custom-ident>"),
  ("page-break-after", .grammar "auto | always | avoid | left | right | recto | verso"),
  ("page-break-before", .grammar "<page-break-after>"),
  ("page-break-inside", .grammar "auto | avoid"),
  ("place-content", .grammar "<align-content> <justify-content>?"),
  ("place-items", .grammar <|
    "[ normal | stretch | <baseline-position> | <self-position> ] [ normal | stretch | " ++
      "<baseline-position> | <self-position> ]?"),
  ("place-self", .grammar "<align-self> <justify-self>?"),
  ("row-gap", .grammar "<column-gap>"),
  ("table-layout", .grammar "auto | fixed")]

/-- The size, the place and the edges of boxes, and what applies to every element. -/
def box : List (String × Definition) := [
  ("all", .grammar "initial | inherit | revert | unset"),
  ("aspect-ratio", .grammar "auto || <ratio>"),
  ("block-size", .grammar "<width>"),
  ("bottom", .grammar "<top>"),
  ("box-sizing", .grammar "content-box | border-box"),
  ("clear", .grammar "none | right | left | both | inline-start | inline-end"),
  ("contain", .grammar "none | strict | content | [ size || layout || style || paint ]"),
  ("contain-intrinsic-size", .grammar "<contain-intrinsic>\x7b1,2\x7d"),
  ("content-visibility", .grammar "auto | <vis-hid>"),
  ("display", .grammar <|
    "[ <display-outside> || <display-inside> ] | <display-listitem> | <display-internal> | " ++
      "<display-box> | <display-legacy> | -webkit-box | -webkit-inline-box | -ms-flexbox"),
  ("float", .grammar "left | right | none | inline-start | inline-end"),
  ("height", .grammar "<width>"),
  ("inline-size", .grammar "<width>"),
  ("inset", .grammar "<top>\x7b1,4\x7d"),
  ("inset-block", .grammar "<top>\x7b1,2\x7d"),
  ("inset-block-end", .grammar "<top>"),
  ("inset-block-start", .grammar "<top>"),
  ("inset-inline", .grammar "<top>\x7b1,2\x7d"),
  ("inset-inline-end", .grammar "<top>"),
  ("inset-inline-start", .grammar "<top>"),
  ("left", .grammar "<top>"),
  ("margin", .grammar "<width>\x7b1,4\x7d"),
  ("margin-bottom", .grammar "<width>"),
  ("margin-left", .grammar "<width>"),
  ("margin-right", .grammar "<width>"),
  ("margin-top", .grammar "<width>"),
  ("margin-block", .grammar "<width>\x7b1,2\x7d"),
  ("margin-block-end", .grammar "<width>"),
  ("margin-block-start", .grammar "<width>"),
  ("margin-inline", .grammar "<width>\x7b1,2\x7d"),
  ("margin-inline-end", .grammar "<width>"),
  ("margin-inline-start", .grammar "<width>"),
  ("max-height", .grammar "<width-max>"),
  ("max-width", .grammar "<width-max>"),
  ("min-height", .grammar "<width>"),
  ("min-width", .grammar "<width>"),
  ("max-block-size", .grammar "<width-max>"),
  ("max-inline-size", .grammar "<width-max>"),
  ("min-block-size", .grammar "<width>"),
  ("min-inline-size", .grammar "<width>"),
  ("overflow", .grammar "<overflow>\x7b1,2\x7d"),
  ("overflow-anchor", .grammar "auto | none"),
  ("overflow-block", .grammar "<overflow>"),
  ("overflow-clip-margin", .grammar "visual-box | <len0+>"),
  ("overflow-inline", .grammar "<overflow>"),
  ("overflow-wrap", .grammar "normal | break-word | anywhere"),
  ("overflow-x", .grammar "<overflow>"),
  ("overflow-y", .grammar "<overflow>"),
  ("padding", .grammar "<len-pct0+>\x7b1,4\x7d"),
  ("padding-block", .grammar "<len-pct0+>\x7b1,2\x7d"),
  ("padding-block-end", .grammar "<len-pct0+>"),
  ("padding-block-start", .grammar "<len-pct0+>"),
  ("padding-bottom", .grammar "<len-pct0+>"),
  ("padding-inline", .grammar "<len-pct0+>\x7b1,2\x7d"),
  ("padding-inline-end", .grammar "<len-pct0+>"),
  ("padding-inline-start", .grammar "<len-pct0+>"),
  ("padding-left", .grammar "<len-pct0+>"),
  ("padding-right", .grammar "<len-pct0+>"),
  ("padding-top", .grammar "<len-pct0+>"),
  ("position", .grammar "static | relative | absolute | fixed | sticky"),
  ("right", .grammar "<top>"),
  ("top", .grammar "auto | <len-pct>"),
  ("width", .grammar "<width>"),
  ("z-index", .grammar "<int> | auto"),
  ("zoom", .grammar "<num> | <pct> | normal"),
  ("contain-intrinsic-width", .grammar "<contain-intrinsic>"),
  ("contain-intrinsic-height", .grammar "<contain-intrinsic>"),
  ("contain-intrinsic-block-size", .grammar "<contain-intrinsic>"),
  ("contain-intrinsic-inline-size", .grammar "<contain-intrinsic>")]

end Stylesheet.Property.Table
