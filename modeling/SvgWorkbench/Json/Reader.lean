import SvgWorkbench.Json.Value
import SvgWorkbench.Text.Numeral
import SvgWorkbench.Text.Split

/-!
# Reading JSON text

The grammar is the strict one: no trailing commas, no comments, no leading zeros, no raw control
characters in strings, and nothing but spaces after the value.
-/

namespace SvgWorkbench.Json

open Text

/-! ## Spaces and numbers -/

/-- The spaces of JSON. -/
def isSpace (c : Char) : Bool := c == ' ' || c == '\t' || c == '\n' || c == '\r'

/-- The text from the first character that is not a space. -/
def skipSpaces (cs : List Char) : List Char := cs.dropWhile isSpace

/-- A nonempty run of digits. -/
def digits? (cs : List Char) : Option (List Char × List Char) :=
  let run := cs.takeWhile (isDigit 10)
  if run.isEmpty then none else some (run, cs.dropWhile (isDigit 10))

/-- The digits after a point, if there is one. -/
def fraction? : List Char → Option (Option (List Char) × List Char)
  | '.' :: cs => (digits? cs).map fun (run, rest) ↦ (some run, rest)
  | cs => some (none, cs)

/-- An exponent, if there is one. -/
def exponent? : List Char → Option (Option (Bool × List Char) × List Char)
  | c :: cs =>
    if c = 'e' ∨ c = 'E' then
      let (negative, rest) := match cs with
        | '-' :: rest => (true, rest)
        | '+' :: rest => (false, rest)
        | rest => (false, rest)
      (digits? rest).map fun (run, rest) ↦ (some (negative, run), rest)
    else some (none, c :: cs)
  | [] => some (none, [])

/-- A number from its first digit on. -/
def number? (negative : Bool) (cs : List Char) : Option (NumberToken × List Char) := do
  let (whole, rest) ← digits? cs
  if whole.head? == some '0' && whole.length > 1 then none
  let (fraction, rest) ← fraction? rest
  let (exponent, rest) ← exponent? rest
  return (⟨negative, whole, fraction, exponent⟩, rest)

/-! ## Strings -/

/-- The two halves of a surrogate pair as one character, and everything else as it is. -/
def joinUnits : List Nat → Option (List Char)
  | [] => some []
  | [u] => if u.isValidChar then some [Char.ofNat u] else none
  | u :: v :: rest =>
    if u.isValidChar then (joinUnits (v :: rest)).map (Char.ofNat u :: ·)
    else if u < 0xDC00 ∧ 0xDC00 ≤ v ∧ v < 0xE000 then
      (joinUnits rest).map (Char.ofNat (0x10000 + (u - 0xD800) * 0x400 + (v - 0xDC00)) :: ·)
    else none

/-- The character a letter escape stands for. -/
def letterEscape? : Char → Option Char
  | '"' => some '"'
  | '\\' => some '\\'
  | '/' => some '/'
  | 'b' => some '\x08'
  | 'f' => some '\x0c'
  | 'n' => some '\n'
  | 'r' => some '\r'
  | 't' => some '\t'
  | _ => none

/-- The code points and code units of a string after its opening quote. -/
def units? : List Char → Option (List Nat × List Char)
  | [] => none
  | '"' :: cs => some ([], cs)
  | '\\' :: 'u' :: a :: b :: c :: d :: cs => do
    let u ← numeral? 16 [a, b, c, d]
    let (us, rest) ← units? cs
    return (u :: us, rest)
  | '\\' :: c :: cs => do
    let e ← letterEscape? c
    let (us, rest) ← units? cs
    return (e.toNat :: us, rest)
  | c :: cs =>
    if c.toNat < 0x20 then none
    else (units? cs).map fun (us, rest) ↦ (c.toNat :: us, rest)

/-- A string after its opening quote. -/
def string? (cs : List Char) : Option (Option String × List Char) :=
  (units? cs).map fun (us, rest) ↦ ((joinUnits us).map String.ofList, rest)

/-! ## Values -/

mutual

/-- A value, with `fuel` bounding the steps. -/
def readValue? : Nat → List Char → Option (Json × List Char)
  | 0, _ => none
  | fuel + 1, cs =>
    match skipSpaces cs with
    | '"' :: rest => (string? rest).map fun (s, rest) ↦ (.string s, rest)
    | '[' :: rest => (readItems? fuel true rest).map fun (items, rest) ↦ (.array items, rest)
    | '\x7b' :: rest =>
      (readEntries? fuel true rest).map fun (entries, rest) ↦ (.object entries, rest)
    | '-' :: rest => (number? true rest).map fun (t, rest) ↦ (.number t, rest)
    | 't' :: rest => (afterPrefix? ['r', 'u', 'e'] rest).map (.bool true, ·)
    | 'f' :: rest => (afterPrefix? ['a', 'l', 's', 'e'] rest).map (.bool false, ·)
    | 'n' :: rest => (afterPrefix? ['u', 'l', 'l'] rest).map (.null, ·)
    | rest => (number? false rest).map fun (t, rest) ↦ (.number t, rest)

/-- The items of an array after its bracket or, if it is not the `first` item, after an item. -/
def readItems? : Nat → Bool → List Char → Option (List Json × List Char)
  | 0, _, _ => none
  | fuel + 1, first, cs =>
    match first, skipSpaces cs with
    | _, ']' :: rest => some ([], rest)
    | true, rest => do
      let (item, rest) ← readValue? fuel rest
      let (items, rest) ← readItems? fuel false rest
      return (item :: items, rest)
    | false, ',' :: rest => do
      let (item, rest) ← readValue? fuel rest
      let (items, rest) ← readItems? fuel false rest
      return (item :: items, rest)
    | false, _ => none

/-- The entries of an object after its brace or, if it is not the `first` entry, after an entry. -/
def readEntries? : Nat → Bool → List Char → Option (List (Option String × Json) × List Char)
  | 0, _, _ => none
  | fuel + 1, first, cs =>
    match first, skipSpaces cs with
    | _, '\x7d' :: rest => some ([], rest)
    | true, '"' :: rest => readEntry? fuel rest
    | false, ',' :: rest =>
      match skipSpaces rest with
      | '"' :: rest => readEntry? fuel rest
      | _ => none
    | _, _ => none

/-- An entry of an object after the opening quote of its key, and the entries after it. -/
def readEntry? : Nat → List Char → Option (List (Option String × Json) × List Char)
  | 0, _ => none
  | fuel + 1, cs => do
    let (key, rest) ← string? cs
    match skipSpaces rest with
    | ':' :: rest => do
      let (value, rest) ← readValue? fuel rest
      let (entries, rest) ← readEntries? fuel false rest
      return ((key, value) :: entries, rest)
    | _ => none

end

/-- The value a text denotes. -/
def read? (s : String) : Option Json := do
  let (value, rest) ← readValue? (3 * s.length + 1) s.toList
  if (skipSpaces rest).isEmpty then some value else none

end SvgWorkbench.Json
