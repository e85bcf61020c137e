import Stylesheet.Property.Definition

/-!
# Descriptors, and properties of single vendors

The declarations that stand in an at-rule instead of properties, and the
properties that only one vendor knows, under their marked names.
-/

namespace Stylesheet.Property.Table

/-- The descriptors of `@counter-style`. -/
def counterStyleDescriptors : List (String × Definition) := [
  ("additive-symbols", .grammar "<pad>#"),
  ("fallback", .grammar "<ident-not-none>"),
  ("negative", .grammar "<prefix>\x7b1,2\x7d"),
  ("pad", .grammar "<int0+> && <prefix>"),
  ("prefix", .grammar "<string> | <image> | <custom-ident>"),
  ("range", .grammar "[ [ <int> | infinite ]\x7b2\x7d ]# | auto"),
  ("speak-as", .grammar "auto | bullets | numbers | words | spell-out | <ident-not-none>"),
  ("suffix", .grammar "<prefix>"),
  ("symbols", .grammar "<prefix>+"),
  ("system", .grammar <|
    "cyclic | numeric | alphabetic | symbolic | additive | [fixed <int>?] | [ extends " ++
      "<ident-not-none> ]")]

/-- The descriptors of `@font-face`. -/
def fontFaceDescriptors : List (String × Definition) := [
  ("ascent-override", .grammar "[ normal | <pct0+> ]\x7b1,2\x7d"),
  ("descent-override", .grammar "[ normal | <pct0+> ]\x7b1,2\x7d"),
  ("font-display", .grammar "auto | block | swap | fallback | optional"),
  ("font-stretch", .grammar "auto | <font-stretch>\x7b1,2\x7d"),
  ("font-style", .grammar "auto | normal | italic | oblique <angle>\x7b0,2\x7d"),
  ("font-weight", .grammar "auto | [ normal | bold | <num1-1000> ]\x7b1,2\x7d"),
  ("line-gap-override", .grammar "[ normal | <pct0+> ]\x7b1,2\x7d"),
  ("size-adjust", .grammar "<pct0+>"),
  ("src", .grammar "[ url() [ format( <string># ) ]? | local( <family-name> ) ]#"),
  ("font-family", .grammar "[ <generic-family> | <family-name> ]#"),
  ("font-size", .grammar "<absolute-size> | <relative-size> | <len-pct0+>"),
  ("font-variant", .grammar <|
    "normal | none | [ <font-variant-ligatures> || <font-variant-alternates> || " ++
      "<font-variant-caps> || <font-variant-numeric> || <font-variant-east-asian> ]"),
  ("font-variation-settings", .grammar "normal | [ <string> <num> ]#"),
  ("unicode-range", .grammar "<unicode-range>#")]

/-- The descriptors of `@font-palette-values`. -/
def fontPaletteValuesDescriptors : List (String × Definition) := [
  ("base-palette", .grammar "light | dark | <int0+>"),
  ("override-colors", .grammar "[ <int0+> <color> ]#"),
  ("font-family", .grammar "[ <generic-family> | <family-name> ]#")]

/-- The descriptors of `@page`. -/
def pageDescriptors : List (String × Definition) := [
  ("bleed", .grammar "auto | <len>"),
  ("marks", .grammar "none | [ crop || cross ]"),
  ("size", .grammar <|
    "<len>\x7b1,2\x7d | auto | [ [ A3 | A4 | A5 | B4 | B5 | JIS-B4 | JIS-B5 | ledger | legal " ++
      "| letter ] || [ portrait | landscape ] ]")]

/-- The descriptors of `@property`. -/
def registeredDescriptors : List (String × Definition) := [
  ("inherits", .grammar "true | false"),
  ("initial-value", .any),
  ("syntax", .grammar "<string>")]

/-- The descriptors of `@viewport`. -/
def viewportDescriptors : List (String × Definition) := [
  ("height", .grammar "[ auto | device-width | device-height | <len-pct0+> ]\x7b1,2\x7d"),
  ("max-height", .grammar "auto | device-width | device-height | <len-pct0+>"),
  ("max-width", .grammar "auto | device-width | device-height | <len-pct0+>"),
  ("max-zoom", .grammar "auto | <num-pct0+>"),
  ("min-height", .grammar "auto | device-width | device-height | <len-pct0+>"),
  ("min-width", .grammar "auto | device-width | device-height | <len-pct0+>"),
  ("min-zoom", .grammar "auto | <num-pct0+>"),
  ("orientation", .grammar "auto | portrait | landscape"),
  ("user-zoom", .grammar "zoom | fixed"),
  ("width", .grammar "[ auto | device-width | device-height | <len-pct0+> ]\x7b1,2\x7d"),
  ("zoom", .grammar "auto | <num-pct0+>")]

/-- **The at-rules with descriptors of their own.** -/
def scopes : List Scope := [
  ⟨"counter-style", false, counterStyleDescriptors⟩,
  ⟨"font-face", false, fontFaceDescriptors⟩,
  ⟨"font-palette-values", false, fontPaletteValuesDescriptors⟩,
  ⟨"page", true, pageDescriptors⟩,
  ⟨"property", false, registeredDescriptors⟩,
  ⟨"viewport", false, viewportDescriptors⟩]

/-- The properties that only one vendor knows, under their marked names. -/
def vendor : List (String × Definition) := [
  ("-moz-appearance", .grammar <|
    "none | button | button-arrow-down | button-arrow-next | button-arrow-previous | " ++
      "button-arrow-up | button-bevel | button-focus | caret | checkbox | checkbox-container | " ++
      "checkbox-label | checkmenuitem | dualbutton | groupbox | listbox | listitem | menuarrow " ++
      "| menubar | menucheckbox | menuimage | menuitem | menuitemtext | menulist | " ++
      "menulist-button | menulist-text | menulist-textfield | menupopup | menuradio | " ++
      "menuseparator | meterbar | meterchunk | progressbar | progressbar-vertical | " ++
      "progresschunk | progresschunk-vertical | radio | radio-container | radio-label | " ++
      "radiomenuitem | range | range-thumb | resizer | resizerpanel | scale-horizontal | " ++
      "scalethumbend | scalethumb-horizontal | scalethumbstart | scalethumbtick | " ++
      "scalethumb-vertical | scale-vertical | scrollbarbutton-down | scrollbarbutton-left | " ++
      "scrollbarbutton-right | scrollbarbutton-up | scrollbarthumb-horizontal | " ++
      "scrollbarthumb-vertical | scrollbartrack-horizontal | scrollbartrack-vertical | " ++
      "searchfield | separator | sheet | spinner | spinner-downbutton | spinner-textfield | " ++
      "spinner-upbutton | splitter | statusbar | statusbarpanel | tab | tabpanel | tabpanels | " ++
      "tab-scroll-arrow-back | tab-scroll-arrow-forward | textfield | textfield-multiline | " ++
      "toolbar | toolbarbutton | toolbarbutton-dropdown | toolbargripper | toolbox | tooltip | " ++
      "treeheader | treeheadercell | treeheadersortarrow | treeitem | treeline | treetwisty | " ++
      "treetwistyopen | treeview | -moz-mac-unified-toolbar | -moz-win-borderless-glass | " ++
      "-moz-win-browsertabbar-toolbox | -moz-win-communicationstext | " ++
      "-moz-win-communications-toolbox | -moz-win-exclude-glass | -moz-win-glass | " ++
      "-moz-win-mediatext | -moz-win-media-toolbox | -moz-window-button-box | " ++
      "-moz-window-button-box-maximized | -moz-window-button-close | " ++
      "-moz-window-button-maximize | -moz-window-button-minimize | -moz-window-button-restore " ++
      "| -moz-window-frame-bottom | -moz-window-frame-left | -moz-window-frame-right | " ++
      "-moz-window-titlebar | -moz-window-titlebar-maximized"),
  ("-ms-appearance", .grammar <|
    "none | icon | window | desktop | workspace | document | tooltip | dialog | button | " ++
      "push-button | hyperlink | radio | radio-button | checkbox | menu-item | tab | menu | " ++
      "menubar | pull-down-menu | pop-up-menu | list-menu | radio-group | checkbox-group | " ++
      "outline-tree | range | field | combo-box | signature | password | normal"),
  ("-webkit-appearance", .grammar <|
    "auto | none | button | button-bevel | caps-lock-indicator | caret | checkbox | " ++
      "default-button | listbox | listitem | media-fullscreen-button | media-mute-button | " ++
      "media-play-button | media-seek-back-button | media-seek-forward-button | media-slider | " ++
      "media-sliderthumb | menulist | menulist-button | menulist-text | menulist-textfield | " ++
      "push-button | radio | searchfield | searchfield-cancel-button | searchfield-decoration " ++
      "| searchfield-results-button | searchfield-results-decoration | slider-horizontal | " ++
      "slider-vertical | sliderthumb-horizontal | sliderthumb-vertical | square-button | " ++
      "textarea | textfield | scrollbarbutton-down | scrollbarbutton-left | " ++
      "scrollbarbutton-right | scrollbarbutton-up | scrollbargripper-horizontal | " ++
      "scrollbargripper-vertical | scrollbarthumb-horizontal | scrollbarthumb-vertical | " ++
      "scrollbartrack-horizontal | scrollbartrack-vertical"),
  ("-o-appearance", .grammar <|
    "none | window | desktop | workspace | document | tooltip | dialog | button | " ++
      "push-button | hyperlink | radio | radio-button | checkbox | menu-item | tab | menu | " ++
      "menubar | pull-down-menu | pop-up-menu | list-menu | radio-group | checkbox-group | " ++
      "outline-tree | range | field | combo-box | signature | password | normal"),
  ("-webkit-box-reflect", .grammar "[ above | below | right | left ]? <len>? <image>?"),
  ("-webkit-text-fill-color", .grammar "<color>"),
  ("-webkit-text-stroke", .grammar "<border-width> || <color>"),
  ("-webkit-text-stroke-color", .grammar "<color>"),
  ("-webkit-text-stroke-width", .grammar "<border-width>"),
  ("-webkit-user-modify", .grammar "read-only | read-write | write-only")]

end Stylesheet.Property.Table
