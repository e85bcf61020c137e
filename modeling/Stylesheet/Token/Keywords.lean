import Stylesheet.Text.Basic

/-!
# Keyword sets

Short lists of words with a meaning in one place of the language. Words
are compared without regard to the case of ASCII letters.
-/

namespace Stylesheet

/-- **A set of words.** -/
structure Keywords where
  /-- The words, in small letters, in the order messages list them. -/
  words : List String
  deriving Repr

namespace Keywords

/-- Whether a text is one of the words, in any letter case. -/
def has (set : Keywords) (text : String) : Bool := set.words.any (Text.eqIgnoreCase · text)

/-- The words in quotes, as messages list them. -/
def describe (set : Keywords) : String := "\"" ++ "\", \"".intercalate set.words ++ "\""

/-- Joins conditions. -/
def and : Keywords := ⟨["and"]⟩

/-- Joins conditions either way. -/
def andOr : Keywords := ⟨["and", "or"]⟩

/-- What may stand before the end of an attribute test. -/
def attrFlags : Keywords := ⟨["i", "s", "]"]⟩

/-- The automatic choice. -/
def auto : Keywords := ⟨["auto"]⟩

/-- The two named steps of a count. -/
def evenOdd : Keywords := ⟨["even", "odd"]⟩

/-- The ends of an animation. -/
def fromTo : Keywords := ⟨["from", "to"]⟩

/-- Follows the mark of an important declaration. -/
def important : Keywords := ⟨["important"]⟩

/-- Names a cascade layer. -/
def layer : Keywords := ⟨["layer"]⟩

/-- The absent value. -/
def none : Keywords := ⟨["none"]⟩

/-- Turns a condition around. -/
def not : Keywords := ⟨["not"]⟩

/-- What may stand before a media type. -/
def notOnly : Keywords := ⟨["not", "only"]⟩

/-- Restricts a count to a list of selectors. -/
def of : Keywords := ⟨["of"]⟩

/-- Joins alternatives. -/
def or : Keywords := ⟨["or"]⟩

/-- Comes before the lower end of a scope. -/
def toWord : Keywords := ⟨["to"]⟩

/-- The values that every property takes. -/
def global : Keywords := ⟨["initial", "inherit", "revert", "unset"]⟩

/-- The margin boxes of a page. -/
def margins : Keywords := ⟨[
  "bottom-center", "bottom-left-corner", "bottom-left", "bottom-right-corner",
  "bottom-right", "left-bottom", "left-middle", "left-top", "right-bottom", "right-middle",
  "right-top", "top-center", "top-left-corner", "top-left", "top-right-corner", "top-right"]⟩

/-- The names of colors, and those of the colors of a desktop. -/
def colors : Keywords := ⟨[
  "aliceblue", "antiquewhite", "aqua", "aquamarine", "azure", "beige", "bisque", "black",
  "blanchedalmond", "blue", "blueviolet", "brown", "burlywood", "cadetblue", "chartreuse",
  "chocolate", "coral", "cornflowerblue", "cornsilk", "crimson", "cyan", "darkblue",
  "darkcyan", "darkgoldenrod", "darkgray", "darkgrey", "darkgreen", "darkkhaki",
  "darkmagenta", "darkolivegreen", "darkorange", "darkorchid", "darkred", "darksalmon",
  "darkseagreen", "darkslateblue", "darkslategray", "darkslategrey", "darkturquoise",
  "darkviolet", "deeppink", "deepskyblue", "dimgray", "dimgrey", "dodgerblue", "firebrick",
  "floralwhite", "forestgreen", "fuchsia", "gainsboro", "ghostwhite", "gold", "goldenrod",
  "gray", "grey", "green", "greenyellow", "honeydew", "hotpink", "indianred", "indigo",
  "ivory", "khaki", "lavender", "lavenderblush", "lawngreen", "lemonchiffon", "lightblue",
  "lightcoral", "lightcyan", "lightgoldenrodyellow", "lightgreen", "lightgray", "lightgrey",
  "lightpink", "lightsalmon", "lightseagreen", "lightskyblue", "lightslategray",
  "lightslategrey", "lightsteelblue", "lightyellow", "lime", "limegreen", "linen",
  "magenta", "maroon", "mediumaquamarine", "mediumblue", "mediumorchid", "mediumpurple",
  "mediumseagreen", "mediumslateblue", "mediumspringgreen", "mediumturquoise",
  "mediumvioletred", "midnightblue", "mintcream", "mistyrose", "moccasin", "navajowhite",
  "navy", "oldlace", "olive", "olivedrab", "orange", "orangered", "orchid", "palegoldenrod",
  "palegreen", "paleturquoise", "palevioletred", "papayawhip", "peachpuff", "peru", "pink",
  "plum", "powderblue", "purple", "rebeccapurple", "red", "rosybrown", "royalblue",
  "saddlebrown", "salmon", "sandybrown", "seagreen", "seashell", "sienna", "silver",
  "skyblue", "slateblue", "slategray", "slategrey", "snow", "springgreen", "steelblue",
  "tan", "teal", "thistle", "tomato", "turquoise", "violet", "wheat", "white", "whitesmoke",
  "yellow", "yellowgreen", "currentcolor", "transparent", "activeborder", "activecaption",
  "appworkspace", "background", "buttonface", "buttonhighlight", "buttonshadow",
  "buttontext", "captiontext", "graytext", "greytext", "highlight", "highlighttext",
  "inactiveborder", "inactivecaption", "inactivecaptiontext", "infobackground", "infotext",
  "menu", "menutext", "scrollbar", "threeddarkshadow", "threedface", "threedhighlight",
  "threedlightshadow", "threedshadow", "window", "windowframe", "windowtext"]⟩

end Keywords

end Stylesheet
