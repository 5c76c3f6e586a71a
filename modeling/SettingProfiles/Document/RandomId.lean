/-
SettingProfiles.Document.RandomId — ids from random bytes.

An id made of sixteen random bytes has the form of a random UUID: 32
hexadecimal digits in five groups, with the digit of the version at the
beginning of the third group and the bits of the variant at that of the
fourth.
-/
namespace SettingProfiles

/-- The two hexadecimal digits of a byte, lower case. -/
def byteDigits (b : UInt8) : List Char :=
  [Nat.digitChar (b.toNat / 16), Nat.digitChar (b.toNat % 16)]

/-- The digits of a number of bytes. -/
def groupDigits (bytes : List UInt8) : List Char := bytes.flatMap byteDigits

/-- The byte with the four bits of the version in front. -/
def versionByte (b : UInt8) : UInt8 := (b &&& 0x0F) ||| 0x40

/-- The byte with the two bits of the variant in front. -/
def variantByte (b : UInt8) : UInt8 := (b &&& 0x3F) ||| 0x80

/-- The id of sixteen random bytes. -/
def randomId (bytes : List UInt8) : String :=
  let marked := (bytes.modify 6 versionByte).modify 8 variantByte
  let group (start length : Nat) : List Char := groupDigits ((marked.drop start).take length)
  String.ofList (['-'].intercalate [group 0 4, group 4 2, group 6 2, group 8 2, group 10 6])

example : randomId (List.replicate 16 0xFF) = "ffffffff-ffff-4fff-bfff-ffffffffffff" := by decide

end SettingProfiles
