/-
Text as UTF-8 bytes.

A payload is a list of bytes.  Bytes that hold a character sequence decode to
it, `decode?` refuses all others, and `decodeLossy` puts one replacement
character for every longest run of bytes that could still have begun a
character.  Both read the same list of pieces, so they agree wherever the first
one answers.
-/
namespace HomeSync

abbrev Payload := List UInt8

namespace Utf8

def isTail (b : UInt8) : Bool := 0x80 ≤ b && b ≤ 0xBF

/-- Whether a byte may come second after a leading byte.  The bounds keep out
overlong forms, surrogates and numbers above the last code point. -/
def isSecond (lead b : UInt8) : Bool :=
  if lead = 0xE0 then 0xA0 ≤ b && b ≤ 0xBF
  else if lead = 0xED then 0x80 ≤ b && b ≤ 0x9F
  else if lead = 0xF0 then 0x90 ≤ b && b ≤ 0xBF
  else if lead = 0xF4 then 0x80 ≤ b && b ≤ 0x8F
  else isTail b

def tailBits (b : UInt8) : Nat := b.toNat - 0x80

/-- The first character of a text that starts with `b`, or `none` for a byte run
that holds none, and the bytes behind it. -/
def front (b : UInt8) (rest : List UInt8) : Option Char × List UInt8 :=
  if b < 0x80 then (some (Char.ofNat b.toNat), rest)
  else if 0xC2 ≤ b && b ≤ 0xDF then
    match rest with
    | b₁ :: rest₁ =>
      if isTail b₁ then (some (Char.ofNat ((b.toNat - 0xC0) * 64 + tailBits b₁)), rest₁)
      else (none, rest)
    | [] => (none, rest)
  else if 0xE0 ≤ b && b ≤ 0xEF then
    match rest with
    | b₁ :: rest₁ =>
      if isSecond b b₁ then
        match rest₁ with
        | b₂ :: rest₂ =>
          if isTail b₂ then
            (some (Char.ofNat ((b.toNat - 0xE0) * 4096 + tailBits b₁ * 64 + tailBits b₂)), rest₂)
          else (none, rest₁)
        | [] => (none, rest₁)
      else (none, rest)
    | [] => (none, rest)
  else if 0xF0 ≤ b && b ≤ 0xF4 then
    match rest with
    | b₁ :: rest₁ =>
      if isSecond b b₁ then
        match rest₁ with
        | b₂ :: rest₂ =>
          if isTail b₂ then
            match rest₂ with
            | b₃ :: rest₃ =>
              if isTail b₃ then
                (some (Char.ofNat ((b.toNat - 0xF0) * 262144 + tailBits b₁ * 4096
                  + tailBits b₂ * 64 + tailBits b₃)), rest₃)
              else (none, rest₂)
            | [] => (none, rest₂)
          else (none, rest₁)
        | [] => (none, rest₁)
      else (none, rest)
    | [] => (none, rest)
  else (none, rest)

theorem length_front_le (b : UInt8) (rest : List UInt8) :
    (front b rest).2.length ≤ rest.length := by
  unfold front
  repeat' split
  all_goals simp only [List.length_cons]
  all_goals omega

/-- The characters of a byte list, with `none` for every run that is not one. -/
def pieces : List UInt8 → List (Option Char)
  | [] => []
  | b :: rest => (front b rest).1 :: pieces (front b rest).2
termination_by bs => bs.length
decreasing_by
  have := length_front_le b rest
  simp only [List.length_cons]
  omega

def decode? (bytes : List UInt8) : Option String :=
  ((pieces bytes).mapM id).map String.ofList

/-- The text that the bytes hold, with U+FFFD for what is not well formed. -/
def decodeLossy (bytes : List UInt8) : String :=
  String.ofList ((pieces bytes).map (·.getD (Char.ofNat 0xFFFD)))

def encode (s : String) : List UInt8 := s.toList.flatMap String.utf8EncodeChar

end Utf8
end HomeSync
