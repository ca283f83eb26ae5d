import RepoPolicy.Digest.Sha256
import RepoPolicy.Text.Blank

set_option autoImplicit false

/-! # Fingerprints

A fingerprint identifies a finding across runs. It depends on the rule, the file and the symbol,
each without the blanks around it: their texts, with a null byte between them, are hashed, and the
first eight bytes of the hash are written in hexadecimal. -/

namespace RepoPolicy.Digest

open RepoPolicy.Text

def fingerprintLength : Nat := 16

def fingerprintBytes (ruleName filePath symbol : String) : List UInt8 :=
  (trimmed ruleName).toUTF8.toList ++ 0 :: (trimmed filePath).toUTF8.toList ++
    0 :: (trimmed symbol).toUTF8.toList

/-- A hexadecimal digit, in lower case, of a number below 16. -/
def hexChar (n : Nat) : Char := if n < 10 then Char.ofNat (48 + n) else Char.ofNat (87 + n)

/-- The two hexadecimal digits of a byte. -/
def hexByte (b : UInt8) : List Char := [hexChar (b.toNat / 16), hexChar (b.toNat % 16)]

def fingerprint (ruleName filePath symbol : String) : String :=
  String.ofList
    (((sha256 (fingerprintBytes ruleName filePath symbol)).take (fingerprintLength / 2)).flatMap
      hexByte)

/-- Whether a character is a hexadecimal digit in lower case. -/
def isHexChar (c : Char) : Bool := c.isDigit || ('a' ≤ c && c ≤ 'f')

def isFingerprint (text : String) : Bool :=
  text.toList.length == fingerprintLength && text.toList.all isHexChar

end RepoPolicy.Digest
