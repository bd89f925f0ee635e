import ScopedScript.Text.Combining
import ScopedScript.Text.Unassigned

/-!
# Quoted texts

Two ways of writing a text between quotes: as a JSON string, and as a name in a message.
-/

namespace ScopedScript.Text

/-- The hexadecimal digits of a number, in lower case. -/
def hexDigits (n : Nat) : List Char := Nat.toDigits 16 n

/-- A text between quotes, each character written by `escape`. -/
def quotedBy (escape : Char → List Char) (text : String) : String :=
  String.ofList ('"' :: text.toList.flatMap escape ++ ['"'])

/-- A character of a JSON string. Quotes, backslashes and the characters below U+0020 are escaped,
the last by a letter of their own where they have one. -/
def jsonEscape (c : Char) : List Char :=
  match c with
  | '"' => ['\\', '"']
  | '\\' => ['\\', '\\']
  | '\n' => ['\\', 'n']
  | '\r' => ['\\', 'r']
  | '\t' => ['\\', 't']
  | '\x08' => ['\\', 'b']
  | '\x0c' => ['\\', 'f']
  | c =>
    if c.toNat < 0x20 then
      let digits := hexDigits c.toNat
      ['\\', 'u'] ++ List.replicate (4 - digits.length) '0' ++ digits
    else [c]

/-- A text as a JSON string. -/
def jsonString : String → String := quotedBy jsonEscape

example : jsonString "a\x01\x7f" = "\"a\\u0001\x7f\"" := by decide +kernel

/-- The ranges of the characters that show nothing by themselves: controls, formats, surrogates,
private use, and every separator but the space. -/
def invisibleRanges : List (Nat × Nat) :=
  [(0x0, 0x1f), (0x7f, 0xa0), (0xad, 0xad), (0x600, 0x605), (0x61c, 0x61c), (0x6dd, 0x6dd),
    (0x70f, 0x70f), (0x890, 0x891), (0x8e2, 0x8e2), (0x1680, 0x1680), (0x180e, 0x180e),
    (0x2000, 0x200f), (0x2028, 0x202f), (0x205f, 0x2064), (0x2066, 0x206f), (0x3000, 0x3000),
    (0xd800, 0xf8ff), (0xfeff, 0xfeff), (0xfff9, 0xfffb), (0x110bd, 0x110bd), (0x110cd, 0x110cd),
    (0x13430, 0x1343f), (0x1bca0, 0x1bca3), (0x1d173, 0x1d17a), (0xe0001, 0xe0001),
    (0xe0020, 0xe007f), (0xf0000, 0xffffd), (0x100000, 0x10fffd)]

/-- The ranges of the characters with the Unicode property `Default_Ignorable_Code_Point`: where
nothing is known of them, nothing is to be shown for them. The fillers of Hangul syllables are
letters and yet among them. -/
def ignorableRanges : List (Nat × Nat) :=
  [(0xad, 0xad), (0x34f, 0x34f), (0x61c, 0x61c), (0x115f, 0x1160), (0x17b4, 0x17b5),
    (0x180b, 0x180f), (0x200b, 0x200f), (0x202a, 0x202e), (0x2060, 0x206f), (0x3164, 0x3164),
    (0xfe00, 0xfe0f), (0xfeff, 0xfeff), (0xffa0, 0xffa0), (0xfff0, 0xfff8), (0x1bca0, 0x1bca3),
    (0x1d173, 0x1d17a), (0xe0000, 0xe0fff)]

example : (areSeparate invisibleRanges && areSeparate ignorableRanges) = true := by decide +kernel

/-- Whether a character stands for itself in a name: a reader sees it, and sees it apart from the
character before it. -/
def showsInName (c : Char) : Bool :=
  !(inRanges invisibleRanges c.toNat || inRanges ignorableRanges c.toNat ||
    inRanges combiningRanges c.toNat || inRanges unassignedRanges c.toNat)

/-- A character of a name in a message. Quotes, backslashes and what would not show are escaped,
a few controls by a letter of their own and the rest by code point. -/
def nameEscape (c : Char) : List Char :=
  match c with
  | '"' => ['\\', '"']
  | '\\' => ['\\', '\\']
  | '\n' => ['\\', 'n']
  | '\r' => ['\\', 'r']
  | '\t' => ['\\', 't']
  | '\x00' => ['\\', '0']
  | c =>
    if showsInName c then [c]
    else ['\\', 'u', '\x7b'] ++ hexDigits c.toNat ++ ['\x7d']

/-- A name as messages show it. -/
def quotedName : String → String := quotedBy nameEscape

/-- An accent is escaped when it is a character of its own. -/
example : quotedName "e\u0301é" = "\"e\\u\x7b301\x7dé\"" := by decide +kernel

end ScopedScript.Text
