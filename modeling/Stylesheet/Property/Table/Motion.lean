import Stylesheet.Property.Definition

/-!
# Motion and interaction

Animations, transitions, transforms, and paths to move along; scrolling,
pointers and controls.
-/

namespace Stylesheet.Property.Table

/-- Animations, transitions, transforms, and paths to move along. -/
def motion : List (String × Definition) := [
  ("animation", .grammar <|
    "[ <time0+> || <timing-function> || <time> || [ infinite | <num0+> ] || " ++
      "<animation-direction> || <animation-fill-mode> || [ running | paused ] || [ none | " ++
      "<custom-ident> | <string> ] || <animation-timeline> ]#"),
  ("animation-composition", .grammar "[ replace | add | accumulate ]#"),
  ("animation-delay", .grammar "<time>#"),
  ("animation-direction", .grammar "<animation-direction>#"),
  ("animation-duration", .grammar "[ auto | <time0+> ]#"),
  ("animation-fill-mode", .grammar "<animation-fill-mode>#"),
  ("animation-iteration-count", .grammar "[ <num> | infinite ]#"),
  ("animation-name", .grammar "[ none | <keyframes-name> ]#"),
  ("animation-play-state", .grammar "[ running | paused ]#"),
  ("animation-timeline", .grammar "<animation-timeline>#"),
  ("animation-timing-function", .grammar "<timing-function>#"),
  ("backface-visibility", .grammar "<vis-hid>"),
  ("offset", .grammar <|
    "[ <offset-position>? <offset-path> [<len-pct> || <offset-rotate>]? | <offset-position> " ++
      "] [ / <offset-anchor> ]?"),
  ("offset-anchor", .grammar "auto | <position>"),
  ("offset-distance", .grammar "<len-pct>"),
  ("offset-path", .grammar "none | [ <ray> | <url> | <basic-shape> ] || <coord-box>"),
  ("offset-position", .grammar "auto | <position>"),
  ("offset-rotate", .grammar "[ auto | reverse ] || <angle>"),
  ("perspective", .grammar "none | <len0+>"),
  ("perspective-origin", .grammar "<position>"),
  ("rotate", .grammar "none | [ x | y | z | <num>\x7b3\x7d ]? && <angle>"),
  ("scale", .grammar "none | <num-pct>\x7b1,3\x7d"),
  ("scroll-timeline", .grammar
    "[ <scroll-timeline-name> [ <scroll-timeline-axis> || <scroll-timeline-attachment> ]? ]#"),
  ("scroll-timeline-attachment", .grammar "[ local | defer | ancestor ]#"),
  ("scroll-timeline-axis", .grammar "<axis>#"),
  ("scroll-timeline-name", .grammar "none | <custom-ident>#"),
  ("transform", .grammar "none | <fn:transform>+"),
  ("transform-box", .grammar "content-box | border-box | fill-box | stroke-box | view-box"),
  ("transform-origin", .grammar <|
    "[ left | center | right | <len-pct> ] [ top | center | bottom | <len-pct> ] <len>? | [ " ++
      "left | center | right | top | bottom | <len-pct> ] | [ [ center | left | right ] && [ " ++
      "center | top | bottom ] ] <len>?"),
  ("transform-style", .grammar "flat | preserve-3d"),
  ("transition", .grammar <|
    "[ [ none | [ all | <custom-ident> ]# ] || <time> || <timing-function> || <time> || " ++
      "<txbhv> ]#"),
  ("transition-behavior", .grammar "<txbhv>#"),
  ("transition-delay", .grammar "<time>#"),
  ("transition-duration", .grammar "<time>#"),
  ("transition-property", .grammar "none | [ all | <custom-ident> ]#"),
  ("transition-timing-function", .grammar "<timing-function>#"),
  ("translate", .grammar "none | <len-pct> [ <len-pct> <len>? ]?"),
  ("will-change", .grammar "auto | <animateable-feature>#")]

/-- Scrolling, pointers and controls. -/
def interaction : List (String × Definition) := [
  ("accent-color", .grammar "auto | <color>"),
  ("appearance", .grammar "none | auto"),
  ("caret-color", .grammar "auto | <color>"),
  ("cursor", .grammar <|
    "[ [ <url> | image-set() ] [ <num> <num> ]? , ]* [ auto | default | none | context-menu " ++
      "| help | pointer | progress | wait | cell | crosshair | text | vertical-text | alias | " ++
      "copy | move | no-drop | not-allowed | grab | grabbing | e-resize | n-resize | ne-resize " ++
      "| nw-resize | s-resize | se-resize | sw-resize | w-resize | ew-resize | ns-resize | " ++
      "nesw-resize | nwse-resize | col-resize | row-resize | all-scroll | zoom-in | zoom-out ]"),
  ("field-sizing", .grammar "fixed | content"),
  ("overscroll-behavior", .grammar "<overscroll>\x7b1,2\x7d"),
  ("overscroll-behavior-block", .grammar "<overscroll>"),
  ("overscroll-behavior-inline", .grammar "<overscroll>"),
  ("overscroll-behavior-x", .grammar "<overscroll>"),
  ("overscroll-behavior-y", .grammar "<overscroll>"),
  ("pointer-events", .grammar <|
    "auto | none | visiblePainted | visibleFill | visibleStroke | visible | painted | fill | " ++
      "stroke | all"),
  ("resize", .grammar "none | both | horizontal | vertical | block | inline"),
  ("scroll-behavior", .grammar "auto | smooth"),
  ("scroll-margin", .grammar "<len>\x7b1,4\x7d"),
  ("scroll-margin-bottom", .grammar "<len>"),
  ("scroll-margin-left", .grammar "<len>"),
  ("scroll-margin-right", .grammar "<len>"),
  ("scroll-margin-top", .grammar "<len>"),
  ("scroll-margin-block", .grammar "<len>\x7b1,2\x7d"),
  ("scroll-margin-block-end", .grammar "<len>"),
  ("scroll-margin-block-start", .grammar "<len>"),
  ("scroll-margin-inline", .grammar "<len>\x7b1,2\x7d"),
  ("scroll-margin-inline-end", .grammar "<len>"),
  ("scroll-margin-inline-start", .grammar "<len>"),
  ("scroll-padding", .grammar "<top>\x7b1,4\x7d"),
  ("scroll-padding-left", .grammar "<top>"),
  ("scroll-padding-right", .grammar "<top>"),
  ("scroll-padding-top", .grammar "<top>"),
  ("scroll-padding-bottom", .grammar "<top>"),
  ("scroll-padding-block", .grammar "<top>\x7b1,2\x7d"),
  ("scroll-padding-block-end", .grammar "<top>"),
  ("scroll-padding-block-start", .grammar "<top>"),
  ("scroll-padding-inline", .grammar "<top>\x7b1,2\x7d"),
  ("scroll-padding-inline-end", .grammar "<top>"),
  ("scroll-padding-inline-start", .grammar "<top>"),
  ("scroll-snap-align", .grammar "[ none | start | end | center ]\x7b1,2\x7d"),
  ("scroll-snap-stop", .grammar "normal | always"),
  ("scroll-snap-type", .grammar
    "none | [ x | y | block | inline | both ] [ mandatory | proximity ]?"),
  ("scrollbar-color", .grammar "auto | dark | light | <color>\x7b2\x7d"),
  ("scrollbar-gutter", .grammar "auto | stable && both-edges?"),
  ("scrollbar-width", .grammar "auto | thin | none"),
  ("touch-action", .grammar
    "auto | none | pan-x | pan-y | pan-left | pan-right | pan-up | pan-down | manipulation"),
  ("user-select", .grammar "auto | text | none | contain | all")]

end Stylesheet.Property.Table
