import PoolWatch.Decimal.Notation
import PoolWatch.Mark
/-!
# SVG documents

Marks as elements of an SVG document. In texts the three characters that would be read as
mark-up are written as entities.
-/

namespace PoolWatch.Svg

open PoolWatch.Numeric

def replaceChar (c : Char) (entity text : String) : String :=
  String.ofList (text.toList.flatMap fun d => if d = c then entity.toList else [d])

def escape (text : String) : String :=
  replaceChar '>' "&gt;" (replaceChar '<' "&lt;" (replaceChar '&' "&amp;" text))

def coordinate (x : Float32) : String := Decimal.fixed 1 (parts32 x)

def measure (x : Float32) : String := Decimal.plain binary32 (parts32 x)

def attr (name value : String) : String := " " ++ name ++ "=\"" ++ value ++ "\""

def pair (p : Pos) : String := coordinate p.x ++ "," ++ coordinate p.y

def alignment : Anchor → String × String
  | .topCenter => ("middle", "hanging")
  | .rightMiddle => ("end", "middle")
  | .bottomCenter => ("middle", "auto")

def element : Mark → String
  | .polyline [] _ _ => ""
  | .polyline (p :: ps) color width =>
    "<polyline" ++ attr "fill" "none" ++ attr "stroke" color.hex ++
      attr "stroke-width" (measure width) ++
      attr "points" (" ".intercalate ((p :: ps).map pair)) ++ "/>\n"
  | .line start stop color width =>
    "<line" ++ attr "x1" (coordinate start.x) ++ attr "y1" (coordinate start.y) ++
      attr "x2" (coordinate stop.x) ++ attr "y2" (coordinate stop.y) ++
      attr "stroke" color.hex ++ attr "stroke-width" (measure width) ++ "/>\n"
  | .text p text anchor color =>
    "<text" ++ attr "x" (coordinate p.x) ++ attr "y" (coordinate p.y) ++
      attr "fill" color.hex ++ attr "text-anchor" (alignment anchor).1 ++
      attr "dominant-baseline" (alignment anchor).2 ++ ">" ++ escape text ++ "</text>\n"

def startTag (size : Size) : String :=
  let width := measure size.width
  let height := measure size.height
  "<svg" ++ attr "xmlns" "http://www.w3.org/2000/svg" ++ attr "width" width ++
    attr "height" height ++ attr "viewBox" ("0 0 " ++ width ++ " " ++ height) ++
    attr "font-family" "sans-serif" ++ attr "font-size" "11" ++ ">\n"

def document (size : Size) (marks : List Mark) : String :=
  startTag size ++ String.join (marks.map element) ++ "</svg>\n"

end PoolWatch.Svg
