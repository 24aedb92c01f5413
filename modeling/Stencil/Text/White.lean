/-!
# White space

White space is the set of characters that separate tokens: tab, line feed, vertical tab, form
feed and carriage return, the space, the next-line and no-break characters, and the other space,
line and paragraph separators.
-/

namespace Stencil.Text

/-- Whether a character is white space. -/
def isWhite (c : Char) : Bool :=
  let n := c.toNat
  (0x9 ≤ n && n ≤ 0xd) || n == 0x20 || n == 0x85 || n == 0xa0 || n == 0x1680 ||
    (0x2000 ≤ n && n ≤ 0x200a) || n == 0x2028 || n == 0x2029 || n == 0x202f || n == 0x205f ||
    n == 0x3000

end Stencil.Text
