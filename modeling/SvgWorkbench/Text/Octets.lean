/-!
# Sizes and leading octets in UTF-8

Positions in read errors count octets, and messages about a misplaced character show the first octet
of its UTF-8 form as a character of its own.
-/

namespace SvgWorkbench.Text

/-- The number of octets a text takes in UTF-8. -/
def octets (cs : List Char) : Nat := cs.foldr (fun c n ↦ c.utf8Size + n) 0

@[simp] theorem octets_nil : octets [] = 0 := rfl

@[simp] theorem octets_cons (c : Char) (cs : List Char) :
    octets (c :: cs) = c.utf8Size + octets cs := rfl

/-- The first octet of a character's UTF-8 form, as the character of that number. -/
def leadingOctet (c : Char) : Char :=
  let n := c.toNat
  if n < 0x80 then c
  else if n < 0x800 then Char.ofNat (0xC0 + n / 0x40)
  else if n < 0x10000 then Char.ofNat (0xE0 + n / 0x1000)
  else Char.ofNat (0xF0 + n / 0x40000)

end SvgWorkbench.Text
