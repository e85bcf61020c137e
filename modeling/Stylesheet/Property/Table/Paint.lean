import Stylesheet.Property.Definition

/-!
# Colors, images and borders

Backgrounds, colors, masks and effects; borders, outlines and the shadows
of boxes; the presentation of vector graphics.
-/

namespace Stylesheet.Property.Table

/-- Backgrounds, colors, masks and effects. -/
def paint : List (String × Definition) := [
  ("backdrop-filter", .grammar "<filter-function-list> | none"),
  ("background", .grammar "[ <bg-layer> , ]* <final-bg-layer>"),
  ("background-attachment", .grammar "<attachment>#"),
  ("background-blend-mode", .grammar "<blend-mode>"),
  ("background-clip", .grammar "[ <box> | text ]#"),
  ("background-color", .grammar "<color>"),
  ("background-image", .grammar "<bg-image>#"),
  ("background-origin", .grammar "<box>#"),
  ("background-position", .grammar "<bg-position>#"),
  ("background-position-x", .grammar "[ center | [ left | right ]? <len-pct>? ]#"),
  ("background-position-y", .grammar "[ center | [ top | bottom ]? <len-pct>? ]#"),
  ("background-repeat", .grammar "<repeat-style>#"),
  ("background-size", .grammar "<bg-size>#"),
  ("clip", .grammar "<rect> | auto"),
  ("clip-path", .grammar "<url> | [ <basic-shape> || <geometry-box> ] | none"),
  ("color", .grammar "<color>"),
  ("color-scheme", .grammar "normal | [ light | dark | <custom-ident> ]+ && only?"),
  ("filter", .grammar "<filter-function-list> | <ie-function> | none"),
  ("forced-color-adjust", .grammar "auto | none | preserve-parent-color"),
  ("image-orientation", .grammar "from-image | none | [ <angle> || flip ]"),
  ("image-rendering", .grammar <|
    "auto | smooth | high-quality | crisp-edges | pixelated | optimizeSpeed | " ++
      "optimizeQuality | -webkit-optimize-contrast"),
  ("image-resolution", .any),
  ("isolation", .grammar "auto | isolate"),
  ("mask", .grammar <|
    "[ [ none | <image> ] || <position> [ / <bg-size> ]? || <repeat-style> || <geometry-box> " ++
      "|| [ <geometry-box> | no-clip ] || <compositing-operator> || <masking-mode> ]#"),
  ("mask-border", .grammar <|
    "<mask-border-source> ||<mask-border-slice> [ / <mask-border-width>? [ / " ++
      "<mask-border-outset> ]? ]? ||<mask-border-repeat> || <mask-border-mode>"),
  ("mask-border-mode", .grammar "<mask-type>"),
  ("mask-border-outset", .grammar "[ <len> | <num> ]\x7b1,4\x7d"),
  ("mask-border-repeat", .grammar "[ stretch | repeat | round | space ]\x7b1,2\x7d"),
  ("mask-border-slice", .grammar "<num-pct>\x7b1,4\x7d fill?"),
  ("mask-border-source", .grammar "none | <image>"),
  ("mask-border-width", .grammar "[ <len-pct> | <num> | auto ]\x7b1,4\x7d"),
  ("mask-clip", .grammar "[ <coord-box> | no-clip ]#"),
  ("mask-composite", .grammar "<compositing-operator>#"),
  ("mask-image", .grammar "[ none | <image> ]#"),
  ("mask-mode", .grammar "<masking-mode>#"),
  ("mask-origin", .grammar "<coord-box>#"),
  ("mask-position", .grammar "<position>#"),
  ("mask-repeat", .grammar "<repeat-style>#"),
  ("mask-size", .grammar "<bg-size>#"),
  ("mix-blend-mode", .grammar "<blend-mode>"),
  ("object-fit", .grammar "fill | contain | cover | none | scale-down"),
  ("object-position", .grammar "<position>"),
  ("object-view-box", .grammar "none | <inset> | <rect> | <xywh>"),
  ("opacity", .grammar "<num0-1> | <pct>"),
  ("print-color-adjust", .grammar "economy | exact"),
  ("visibility", .grammar "<vis-hid> | collapse")]

/-- Borders, outlines and the shadows of boxes. -/
def border : List (String × Definition) := [
  ("border-collapse", .grammar "collapse | separate"),
  ("border-image", .grammar <|
    "[ none | <image> ] || <border-image-slice> [ / <border-image-width> | / " ++
      "<border-image-width>? / <border-image-outset> ]? || <border-image-repeat>"),
  ("border-image-outset", .grammar "[ <len> | <num> ]\x7b1,4\x7d"),
  ("border-image-repeat", .grammar "[ stretch | repeat | round | space ]\x7b1,2\x7d"),
  ("border-image-slice", .grammar "<border-image-slice>"),
  ("border-image-source", .grammar "<image> | none"),
  ("border-image-width", .grammar "[ <len-pct> | <num> | auto ]\x7b1,4\x7d"),
  ("border-spacing", .grammar "<len>\x7b1,2\x7d"),
  ("border-bottom-left-radius", .grammar "<len-pct>\x7b1,2\x7d"),
  ("border-bottom-right-radius", .grammar "<len-pct>\x7b1,2\x7d"),
  ("border-end-end-radius", .grammar "<len-pct>\x7b1,2\x7d"),
  ("border-end-start-radius", .grammar "<len-pct>\x7b1,2\x7d"),
  ("border-radius", .grammar "<len-pct0+>\x7b1,4\x7d [ / <len-pct0+>\x7b1,4\x7d ]?"),
  ("border-start-end-radius", .grammar "<len-pct>\x7b1,2\x7d"),
  ("border-start-start-radius", .grammar "<len-pct>\x7b1,2\x7d"),
  ("border-top-left-radius", .grammar "<len-pct>\x7b1,2\x7d"),
  ("border-top-right-radius", .grammar "<len-pct>\x7b1,2\x7d"),
  ("box-decoration-break", .grammar "slice | clone"),
  ("box-shadow", .grammar "none | <shadow>#"),
  ("outline", .grammar "[ <color> | invert ] || [ auto | <border-style> ] || <border-width>"),
  ("outline-color", .grammar "<color> | invert"),
  ("outline-offset", .grammar "<len>"),
  ("outline-style", .grammar "<border-style> | auto"),
  ("outline-width", .grammar "<border-width>"),
  ("border", .grammar "<border-shorthand>"),
  ("border-color", .grammar "<color>\x7b1,4\x7d"),
  ("border-style", .grammar "<border-style>\x7b1,4\x7d"),
  ("border-width", .grammar "<border-width>\x7b1,4\x7d"),
  ("border-bottom", .grammar "<border-shorthand>"),
  ("border-bottom-color", .grammar "<color>"),
  ("border-bottom-style", .grammar "<border-style>"),
  ("border-bottom-width", .grammar "<border-width>"),
  ("border-left", .grammar "<border-shorthand>"),
  ("border-left-color", .grammar "<color>"),
  ("border-left-style", .grammar "<border-style>"),
  ("border-left-width", .grammar "<border-width>"),
  ("border-right", .grammar "<border-shorthand>"),
  ("border-right-color", .grammar "<color>"),
  ("border-right-style", .grammar "<border-style>"),
  ("border-right-width", .grammar "<border-width>"),
  ("border-top", .grammar "<border-shorthand>"),
  ("border-top-color", .grammar "<color>"),
  ("border-top-style", .grammar "<border-style>"),
  ("border-top-width", .grammar "<border-width>"),
  ("border-block", .grammar "<border-shorthand>"),
  ("border-block-color", .grammar "<color>\x7b1,2\x7d"),
  ("border-block-style", .grammar "<border-style>\x7b1,2\x7d"),
  ("border-block-width", .grammar "<border-width>\x7b1,2\x7d"),
  ("border-block-end", .grammar "<border-shorthand>"),
  ("border-block-end-color", .grammar "<color>"),
  ("border-block-end-style", .grammar "<border-style>"),
  ("border-block-end-width", .grammar "<border-width>"),
  ("border-block-start", .grammar "<border-shorthand>"),
  ("border-block-start-color", .grammar "<color>"),
  ("border-block-start-style", .grammar "<border-style>"),
  ("border-block-start-width", .grammar "<border-width>"),
  ("border-inline", .grammar "<border-shorthand>"),
  ("border-inline-color", .grammar "<color>\x7b1,2\x7d"),
  ("border-inline-style", .grammar "<border-style>\x7b1,2\x7d"),
  ("border-inline-width", .grammar "<border-width>\x7b1,2\x7d"),
  ("border-inline-end", .grammar "<border-shorthand>"),
  ("border-inline-end-color", .grammar "<color>"),
  ("border-inline-end-style", .grammar "<border-style>"),
  ("border-inline-end-width", .grammar "<border-width>"),
  ("border-inline-start", .grammar "<border-shorthand>"),
  ("border-inline-start-color", .grammar "<color>"),
  ("border-inline-start-style", .grammar "<border-style>"),
  ("border-inline-start-width", .grammar "<border-width>")]

/-- The presentation of vector graphics, and shapes to flow around. -/
def graphic : List (String × Definition) := [
  ("alignment-baseline", .grammar <|
    "auto | baseline | use-script | before-edge | text-before-edge | after-edge | " ++
      "text-after-edge | central | middle | ideographic | alphabetic | hanging | mathematical"),
  ("baseline-shift", .grammar "baseline | sub | super | <len-pct>"),
  ("baseline-source", .grammar "auto | first | last"),
  ("clip-rule", .grammar "<fill-rule>"),
  ("color-interpolation", .grammar "auto | sRGB | linearRGB"),
  ("color-interpolation-filters", .grammar "<color-interpolation>"),
  ("color-profile", .any),
  ("color-rendering", .grammar "auto | optimizeSpeed | optimizeQuality"),
  ("cx", .grammar "<x>"),
  ("cy", .grammar "<x>"),
  ("d", .any),
  ("dominant-baseline", .grammar <|
    "auto | text-bottom | alphabetic | ideographic | middle | central | mathematical | " ++
      "hanging | text-top"),
  ("fill", .grammar "<paint>"),
  ("fill-opacity", .grammar "<num0-1>"),
  ("fill-rule", .grammar "nonzero | evenodd"),
  ("flood-color", .any),
  ("flood-opacity", .grammar "<num0-1>"),
  ("lighting-color", .grammar "<color>"),
  ("marker", .any),
  ("marker-end", .any),
  ("marker-mid", .any),
  ("marker-start", .any),
  ("mask-type", .grammar "luminance | alpha"),
  ("paint-order", .grammar "normal | [ fill || stroke || markers ]"),
  ("r", .any),
  ("rx", .grammar "<x> | auto"),
  ("ry", .grammar "<rx>"),
  ("rendering-intent", .any),
  ("shape-image-threshold", .grammar "<num-pct>"),
  ("shape-margin", .grammar "<len-pct>"),
  ("shape-rendering", .grammar "auto | optimizeSpeed | crispEdges | geometricPrecision"),
  ("shape-outside", .grammar "none | [ <basic-shape> || <shape-box> ] | <image>"),
  ("stop-color", .any),
  ("stop-opacity", .grammar "<num0-1>"),
  ("stroke", .grammar "<paint>"),
  ("stroke-dasharray", .grammar "none | <dasharray>"),
  ("stroke-dashoffset", .grammar "<len-pct> | <num>"),
  ("stroke-linecap", .grammar "butt | round | square"),
  ("stroke-linejoin", .grammar "miter | miter-clip | round | bevel | arcs"),
  ("stroke-miterlimit", .grammar "<num0+>"),
  ("stroke-opacity", .grammar "<num0-1>"),
  ("stroke-width", .grammar "<len-pct> | <num>"),
  ("text-anchor", .grammar "start | middle | end"),
  ("text-rendering", .grammar "auto | optimizeSpeed | optimizeLegibility | geometricPrecision"),
  ("x", .grammar "<len-pct> | <num>"),
  ("y", .grammar "<x>")]

end Stylesheet.Property.Table
