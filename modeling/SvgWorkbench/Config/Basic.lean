import SvgWorkbench.Decimal.Shortest

/-!
# Settings of the editor

Every setting has a default, so settings may be given in part. Two of them can have values the
editor cannot work with; settings are checked once, before they are used.
-/

namespace SvgWorkbench

/-- The outlines that mark elements in the preview. -/
structure HighlightStyle where
  /-- The outline of selected elements. -/
  selectedOutline : String := "2px solid hsl(var(--primary))"
  /-- The outline of the element the pointer is on. -/
  hoveredOutline : String := "2px solid hsl(var(--accent))"
  /-- The distance of both outlines. -/
  outlineOffset : String := "2px"
  deriving DecidableEq, Repr

/-- The document an editor opens with. -/
def openingMarkup : String :=
  String.join [
    "<svg width=\"200\" height=\"200\" xmlns=\"http://www.w3.org/2000/svg\">\n",
    "  <rect id=\"rect1\" x=\"10\" y=\"10\" width=\"80\" height=\"80\" fill=\"blue\" />\n",
    "  <circle id=\"circle1\" cx=\"150\" cy=\"50\" r=\"40\" fill=\"red\" />\n",
    "  <path id=\"path1\" d=\"M10 150 L90 150 L50 90 Z\" fill=\"green\" />\n",
    "</svg>"]

/-- The content of a new document. -/
def blankMarkup : String :=
  "<svg width=\"400\" height=\"400\" xmlns=\"http://www.w3.org/2000/svg\"></svg>"

/-- The settings of the editor. -/
structure Config where
  /-- How far a duplicate is moved. -/
  duplicateOffset : Float := 20
  /-- The attributes that are moved. -/
  offsetAttributes : List String := ["x", "y", "cx", "cy"]
  /-- The outlines of the preview. -/
  highlight : HighlightStyle := {}
  /-- Whether the grid is shown at first. -/
  showGrid : Bool := true
  /-- How many steps can be undone. -/
  historyLimit : UInt64 := 100
  /-- The document an editor opens with. -/
  initialMarkup : String := openingMarkup
  /-- The content of a new document. -/
  newDocumentMarkup : String := blankMarkup

/-- A value the editor cannot work with. -/
inductive ConfigProblem where
  /-- The offset of duplicates is infinite or no number. -/
  | offsetNotFinite (offset : Float)
  /-- Nothing could be undone. -/
  | noHistory

/-- The wording of a problem. -/
def ConfigProblem.message : ConfigProblem → String
  | .offsetNotFinite offset =>
    String.join ["invalid configuration: duplicateOffset must be finite, got ", Decimal.text offset]
  | .noHistory => "invalid configuration: historyLimit must be at least 1"

/-- The settings, if the editor can work with them. -/
def Config.validated (c : Config) : Except ConfigProblem Config :=
  if !c.duplicateOffset.isFinite then .error (.offsetNotFinite c.duplicateOffset)
  else if c.historyLimit = 0 then .error .noHistory
  else .ok c

/-- Why settings cannot be used. -/
inductive ConfigError where
  /-- The JSON text is malformed or has values of wrong types. -/
  | badJson
  /-- The YAML text is malformed or has values of wrong types. -/
  | badYaml
  /-- A value the editor cannot work with. -/
  | invalid (problem : ConfigProblem)

end SvgWorkbench
