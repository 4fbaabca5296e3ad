import LineTally.Text.CodePoints

/-!
# Blanks

The characters that only hold a place open: the property White_Space of Unicode. It contains the
white space of ASCII and goes beyond it, to no-break spaces and the wide space of ideographic text.
-/

set_option autoImplicit false

namespace LineTally

def CodePoints.blank : CodePoints :=
  [(0x9, 0xD), (0x20, 0x20), (0x85, 0x85), (0xA0, 0xA0), (0x1680, 0x1680), (0x2000, 0x200A),
   (0x2028, 0x2029), (0x202F, 0x202F), (0x205F, 0x205F), (0x3000, 0x3000)]

def isBlank (c : Char) : Bool := CodePoints.blank.has c

end LineTally
