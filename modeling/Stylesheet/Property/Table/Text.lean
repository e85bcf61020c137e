import Stylesheet.Property.Definition

/-!
# Text and fonts

Lines, words, lists and generated content; fonts and the setting of
mathematics.
-/

namespace Stylesheet.Property.Table

/-- Lines, words, lists and generated content. -/
def text : List (String × Definition) := [
  ("caption-side", .grammar "top | bottom | inline-start | inline-end"),
  ("content", .grammar "normal | none | <content-list> [ / <string> ]?"),
  ("counter-increment", .grammar "<counter>"),
  ("counter-reset", .grammar "<counter>"),
  ("counter-set", .grammar "<counter>"),
  ("direction", .grammar "ltr | rtl"),
  ("hanging-punctuation", .grammar "none | [ first || [ force-end | allow-end ] || last ]"),
  ("hyphenate-character", .grammar "<string> | auto"),
  ("hyphenate-limit-chars", .grammar "[ auto | <int> ]\x7b1,3\x7d"),
  ("hyphens", .grammar "none | manual | auto"),
  ("letter-spacing", .grammar "<len> | normal"),
  ("line-height", .grammar "<line-height>"),
  ("line-break", .grammar "auto | loose | normal | strict | anywhere"),
  ("list-style", .grammar "<list-style-position> || <list-style-image> || <list-style-type>"),
  ("list-style-image", .grammar "<image> | none"),
  ("list-style-position", .grammar "inside | outside"),
  ("list-style-type", .grammar <|
    "<string> | disc | circle | square | decimal | decimal-leading-zero | lower-roman | " ++
      "upper-roman | lower-greek | lower-latin | upper-latin | armenian | georgian | " ++
      "lower-alpha | upper-alpha | none | symbols()"),
  ("orphans", .grammar "<int>"),
  ("quotes", .any),
  ("ruby-align", .any),
  ("ruby-position", .any),
  ("speak", .grammar "auto | never | always"),
  ("tab-size", .grammar "<num> | <len>"),
  ("text-align", .grammar "<text-align> | justify-all"),
  ("text-align-last", .grammar "<text-align> | auto"),
  ("text-combine-upright", .grammar "none | all | [ digits <int2-4>? ]"),
  ("text-decoration", .grammar "<text-decoration-line> || <text-decoration-style> || <color>"),
  ("text-decoration-color", .grammar "<color>"),
  ("text-decoration-line", .grammar "none | [ underline || overline || line-through || blink ]"),
  ("text-decoration-skip", .grammar "none | auto"),
  ("text-decoration-skip-ink", .grammar "none | auto | all"),
  ("text-decoration-style", .grammar "solid | double | dotted | dashed | wavy"),
  ("text-decoration-thickness", .grammar "auto | from-font | <len-pct>"),
  ("text-emphasis", .grammar "<text-emphasis-style> || <color>"),
  ("text-emphasis-color", .grammar "<color>"),
  ("text-emphasis-style", .grammar <|
    "none | <string> | [ [ filled | open ] || [ dot | circle | double-circle | triangle | " ++
      "sesame ] ]"),
  ("text-emphasis-position", .grammar "[ over | under ] && [ right | left ]?"),
  ("text-indent", .grammar "<len-pct> && hanging? && each-line?"),
  ("text-justify", .grammar "auto | none | inter-word | inter-character"),
  ("text-orientation", .grammar "mixed | upright | sideways"),
  ("text-overflow", .grammar "clip | ellipsis"),
  ("text-shadow", .grammar "none | [ <color>? && <len>\x7b2,3\x7d ]#"),
  ("text-size-adjust", .grammar "auto | none | <pct0+>"),
  ("text-transform", .grammar
    "none | [ capitalize|uppercase|lowercase ] || full-width || full-size-kana"),
  ("text-underline-offset", .grammar "<len-pct> | auto"),
  ("text-underline-position", .grammar "auto | [ under || [ left | right ] ]"),
  ("text-wrap", .grammar "wrap | nowrap | balance | stable | pretty"),
  ("unicode-bidi", .grammar
    "normal | embed | isolate | bidi-override | isolate-override | plaintext"),
  ("vertical-align", .grammar <|
    "auto | use-script | baseline | sub | super | top | text-top | central | middle | bottom " ++
      "| text-bottom | <len-pct>"),
  ("white-space", .grammar "normal | pre | nowrap | pre-wrap | break-spaces | pre-line"),
  ("widows", .grammar "<int>"),
  ("word-break", .grammar "normal | keep-all | break-all | break-word"),
  ("word-spacing", .grammar "<len> | normal"),
  ("word-wrap", .grammar "normal | break-word | anywhere"),
  ("writing-mode", .grammar <|
    "horizontal-tb | vertical-rl | vertical-lr | lr-tb | rl-tb | tb-rl | bt-rl | tb-lr | " ++
      "bt-lr | lr-bt | rl-bt | lr | rl | tb")]

/-- Fonts and the setting of mathematics. -/
def font : List (String × Definition) := [
  ("font", .grammar <|
    "<font-short-tweak-no-pct>? <font-short-core> | [ <font-short-tweak-no-pct> || <pct> ]? " ++
      "<font-short-core> | caption | icon | menu | message-box | small-caption | status-bar"),
  ("font-family", .grammar "[ <generic-family> | <family-name> ]#"),
  ("font-feature-settings", .grammar "[ <ascii4> [ <int0+> | on | off ]? ]# | normal"),
  ("font-kerning", .grammar "auto | normal | none"),
  ("font-language-override", .grammar "normal | <string>"),
  ("font-optical-sizing", .grammar "auto | none"),
  ("font-palette", .grammar "none | normal | light | dark | <custom-ident>"),
  ("font-size", .grammar "<absolute-size> | <relative-size> | <len-pct0+>"),
  ("font-size-adjust", .grammar "<num> | none"),
  ("font-stretch", .grammar "<font-stretch-named> | <pct>"),
  ("font-style", .grammar "normal | italic | oblique <angle>?"),
  ("font-synthesis", .grammar "none | [ weight || style ]"),
  ("font-synthesis-style", .grammar "auto | none"),
  ("font-synthesis-weight", .grammar "auto | none"),
  ("font-synthesis-small-caps", .grammar "auto | none"),
  ("font-variant", .grammar <|
    "normal | none | [ <font-variant-ligatures> || <font-variant-alternates> || " ++
      "<font-variant-caps> || <font-variant-numeric> || <font-variant-east-asian> ]"),
  ("font-variant-alternates", .grammar "<font-variant-alternates> | normal"),
  ("font-variant-caps", .grammar "<font-variant-caps> | normal"),
  ("font-variant-east-asian", .grammar "<font-variant-east-asian> | normal"),
  ("font-variant-emoji", .grammar "auto | text | emoji | unicode"),
  ("font-variant-ligatures", .grammar "<font-variant-ligatures> | normal | none"),
  ("font-variant-numeric", .grammar "<font-variant-numeric> | normal"),
  ("font-variant-position", .grammar "normal | sub | super"),
  ("font-variation-settings", .grammar "normal | [ <string> <num> ]#"),
  ("font-weight", .grammar "normal | bold | bolder | lighter | <num1-1000>"),
  ("math-depth", .grammar "auto-add | add(<int>) | <int>"),
  ("math-shift", .grammar "<math-style>"),
  ("math-style", .grammar "normal | compact"),
  ("unicode-range", .grammar "<unicode-range>#")]

end Stylesheet.Property.Table
