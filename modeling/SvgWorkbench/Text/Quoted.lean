import SvgWorkbench.Text.Table.Unprintable

/-!
# Quoted text in messages

Messages and console lines show a foreign text between double quotes and a foreign character between
single quotes. The enclosing quote and the backslash are escaped, common controls have letter
escapes, and every other character that would not show as itself is written by its number in
hexadecimal.
-/

namespace SvgWorkbench.Text

/-! ## Escapes -/

/-- A number in lower-case hexadecimal, without leading zeros. -/
def hexadecimal (n : Nat) : String := String.ofList (Nat.toDigits 16 n)

/-- A character written by its number. -/
def numbered (c : Char) : String := "\\u\x7b" ++ hexadecimal c.toNat ++ "\x7d"

/-- Whether a character is shown as it is. -/
def isPrintable (c : Char) : Bool :=
  (0x20 ≤ c.toNat && c.toNat < 0x7F) || !Table.holds Table.unprintable c

/-- A character as it stands between quotes of the given kind. -/
def escaped (quote c : Char) : String :=
  if c = '\x00' then "\\0"
  else if c = '\t' then "\\t"
  else if c = '\n' then "\\n"
  else if c = '\r' then "\\r"
  else if c = '\\' ∨ c = quote then String.ofList ['\\', c]
  else if isPrintable c then String.ofList [c]
  else numbered c

/-! ## Quoted forms -/

/-- A text between double quotes. -/
def quoted (s : String) : String := "\"" ++ String.join (s.toList.map (escaped '"')) ++ "\""

/-- A character between single quotes. -/
def quotedChar (c : Char) : String := "'" ++ escaped '\x27' c ++ "'"

end SvgWorkbench.Text
