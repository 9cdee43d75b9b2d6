import SvgWorkbench.Text.AsciiCase

/-!
# Tag names of types

Types are in lower case but tag names are not: an element that is made from its type gets back the
spelling that names of its kind have in drawings.
-/

namespace SvgWorkbench.TagName

/-- The tag names of drawings that have capital letters. -/
def mixedCase : List String :=
  ["altGlyph", "altGlyphDef", "altGlyphItem", "animateColor", "animateMotion", "animateTransform",
    "clipPath", "feBlend", "feColorMatrix", "feComponentTransfer", "feComposite",
    "feConvolveMatrix", "feDiffuseLighting", "feDisplacementMap", "feDistantLight", "feDropShadow",
    "feFlood", "feFuncA", "feFuncB", "feFuncG", "feFuncR", "feGaussianBlur", "feImage", "feMerge",
    "feMergeNode", "feMorphology", "feOffset", "fePointLight", "feSpecularLighting", "feSpotLight",
    "feTile", "feTurbulence", "foreignObject", "glyphRef", "linearGradient", "radialGradient",
    "textPath"]

/-- The tag name of a type: a spelling with capital letters where there is one. -/
def ofKind (kind : String) : String :=
  (mixedCase.find? fun name ↦ Text.eqIgnoringAsciiCase name kind).getD kind

end SvgWorkbench.TagName
