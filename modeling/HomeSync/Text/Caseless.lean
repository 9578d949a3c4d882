/-
Comparing words without regard to letter case.

The words of this library's tables are lower-case ASCII.  Lower-casing a text
gives such a word only if every character of the text is an ASCII letter, digit
or mark, or the Kelvin sign, which is the one character outside ASCII whose
lower-case form lies in ASCII by itself.  So folding these characters and
leaving all others alone finds the same words as full lower-casing.
-/
namespace HomeSync
namespace Text

/-- The lower-case form of a character, where that form is in ASCII. -/
def foldChar (c : Char) : Char :=
  if 'A' ≤ c ∧ c ≤ 'Z' then Char.ofNat (c.toNat + 32)
  else if c.toNat = 0x212A then 'k'
  else c

def fold (s : String) : String := String.ofList (s.toList.map foldChar)

end Text
end HomeSync
