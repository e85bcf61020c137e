import Stylesheet.Property.Definition

/-!
# Functions

Functions that belong together are a group, and a grammar can ask for
any function of a group.
-/

namespace Stylesheet.Property.Table

/-- Functions that give a color. -/
def colorFunctions : List (String × String) := [
  ("color-mix",
    "in [ srgb | srgb-linear | lab | oklab | xyz | xyz-d50 | xyz-d65 | [ hsl | hwb | lch | " ++
      "oklch ] [ [ shorter | longer | increasing | decreasing ] hue ]? ] , [ <color> && " ++
      "<pct0-100>? ]#\x7b2\x7d"),
  ("color",
    "from <color> [ <custom-prop> [ <num-pct-none> <custom-ident> ]# | <rgb-xyz> [ " ++
      "<num-pct-none> | r | g | b | x | y | z ]\x7b3\x7d ] [ / <num-pct-none> | r | g | b | x " ++
      "| y | z ]? | [ <rgb-xyz> <num-pct-none>\x7b3\x7d | <custom-prop> <num-pct-none># ] " ++
      "<alpha>?"),
  ("hsl",
    "<hue> , <pct>#\x7b2\x7d [ , <num-pct0+> ]? | [ <hue> | none ] <num-pct-none>\x7b2\x7d " ++
      "<alpha>? | from <color> [ <hue> | <rel-hsl> ] <rel-hsl-num-pct>\x7b2\x7d [ / " ++
      "<rel-hsl-num-pct> ]?"),
  ("hwb",
    "[ <hue> | none ] <num-pct-none>\x7b2\x7d <alpha>? | from <color> [ <hue> | <rel-hwb> ] " ++
      "<rel-hwb-num-pct>\x7b2\x7d [ / <rel-hwb-num-pct> ]?"),
  ("lab",
    "<num-pct-none>\x7b3\x7d <alpha>? | from <color> <rel-lab-num-pct>\x7b3\x7d [ / " ++
      "<rel-lab-num-pct> ]?"),
  ("lch",
    "<num-pct-none>\x7b2\x7d [ <hue> | none ] <alpha>? | from <color> " ++
      "<rel-lch-num-pct>\x7b2\x7d [ <hue> | <rel-lch> ] [ / <rel-lch-num-pct> ]?"),
  ("light-dark", "<color>#\x7b2\x7d"),
  ("rgb",
    "[ <num>#\x7b3\x7d | <pct>#\x7b3\x7d ] [ , <num-pct0+> ]? | <num-pct-none>\x7b3\x7d " ++
      "<alpha>? | from <color> <rel-rgb-num-pct>\x7b3\x7d [ / <rel-rgb-num-pct> ]?"),
  ("hsla",
    "<hue> , <pct>#\x7b2\x7d [ , <num-pct0+> ]? | [ <hue> | none ] <num-pct-none>\x7b2\x7d " ++
      "<alpha>? | from <color> [ <hue> | <rel-hsl> ] <rel-hsl-num-pct>\x7b2\x7d [ / " ++
      "<rel-hsl-num-pct> ]?"),
  ("rgba",
    "[ <num>#\x7b3\x7d | <pct>#\x7b3\x7d ] [ , <num-pct0+> ]? | <num-pct-none>\x7b3\x7d " ++
      "<alpha>? | from <color> <rel-rgb-num-pct>\x7b3\x7d [ / <rel-rgb-num-pct> ]?"),
  ("oklab",
    "<num-pct-none>\x7b3\x7d <alpha>? | from <color> <rel-lab-num-pct>\x7b3\x7d [ / " ++
      "<rel-lab-num-pct> ]?"),
  ("oklch",
    "<num-pct-none>\x7b2\x7d [ <hue> | none ] <alpha>? | from <color> " ++
      "<rel-lch-num-pct>\x7b2\x7d [ <hue> | <rel-lch> ] [ / <rel-lch-num-pct> ]?")]

/-- Functions that give a graphical effect. -/
def filterFunctions : List (String × String) := [
  ("blur", "<len>?"),
  ("brightness", "<num-pct>?"),
  ("contrast", "<num-pct>?"),
  ("drop-shadow", "[ <len>\x7b2,3\x7d && <color>? ]?"),
  ("grayscale", "<num-pct>?"),
  ("hue-rotate", "<angle-or-0>?"),
  ("invert", "<num-pct>?"),
  ("opacity", "<num-pct>?"),
  ("saturate", "<num-pct>?"),
  ("sepia", "<num-pct>?")]

/-- Functions that give a shape. -/
def basicShapeFunctions : List (String × String) := [
  ("circle", "<shape-radius> [ at <position> ]?"),
  ("ellipse", "[ <shape-radius>\x7b2\x7d ]? [ at <position> ]?"),
  ("inset", "<inset-arg>"),
  ("path", "[ <fill-rule> , ]? <string>"),
  ("polygon", "[ <fill-rule> , ]? [ <len-pct> <len-pct> ]#"),
  ("rect", "<rect-arg>"),
  ("xywh", "<xywh-arg>")]

/-- Functions that move and distort. -/
def transformFunctions : List (String × String) := [
  ("matrix", "<num>#\x7b6\x7d"),
  ("matrix3d", "<num>#\x7b16\x7d"),
  ("perspective", "<len0+> | none"),
  ("rotate", "<angle-or-0> | none"),
  ("rotate3d", "<num>#\x7b3\x7d , <angle-or-0>"),
  ("rotateX", "<angle-or-0>"),
  ("rotateY", "<angle-or-0>"),
  ("rotateZ", "<angle-or-0>"),
  ("scale", "[ <num-pct> ]#\x7b1,2\x7d | none"),
  ("scale3d", "<num-pct>#\x7b3\x7d"),
  ("scaleX", "<num-pct>"),
  ("scaleY", "<num-pct>"),
  ("scaleZ", "<num-pct>"),
  ("skew", "<angle-or-0> [ , <angle-or-0> ]?"),
  ("skewX", "<angle-or-0>"),
  ("skewY", "<angle-or-0>"),
  ("translate", "<len-pct>#\x7b1,2\x7d | none"),
  ("translate3d", "<len-pct>#\x7b2\x7d , <len>"),
  ("translateX", "<len-pct>"),
  ("translateY", "<len-pct>"),
  ("translateZ", "<len>")]

/-- **The groups of functions.** -/
def functionGroups : List FunctionGroup := [
  ⟨"color", colorFunctions⟩,
  ⟨"filter", filterFunctions⟩,
  ⟨"basicShape", basicShapeFunctions⟩,
  ⟨"transform", transformFunctions⟩]

end Stylesheet.Property.Table
