/-!
# Named flag words

A flag word is a number whose bits have names. A `FlagFamily` says which; it reads words strictly
(`ofBits?`, nothing but named bits) or leniently (`truncate`, unnamed bits dropped), and writes a
word as the names of its bits, the unnamed rest in hexadecimal (`text`).
-/

namespace FairKernel

/-- A family of flag words: its name, and the names of single bits in the order in which they are
written. -/
structure FlagFamily where
  /-- The name of the family. -/
  name : String
  /-- Each flag with its value, a power of two. -/
  flags : List (String × Nat)

namespace FlagFamily

variable (family : FlagFamily)

/-- The word with every named bit set. -/
def all : Nat := family.flags.foldl (fun word flag => word ||| flag.2) 0

/-- The word with the unnamed bits dropped. -/
def truncate (word : Nat) : Nat := word &&& family.all

/-- The word, if it has named bits only. -/
def ofBits? (word : Nat) : Option Nat :=
  if family.truncate word = word then some word else none

/-- The number in lower-case hexadecimal, marked as such. -/
def hexText (n : Nat) : String := "0x" ++ String.ofList (Nat.toDigits 16 n)

/-- The written form of the bits of a word: names in order, then the unnamed rest in hexadecimal;
the empty word is written as a number. -/
def bitsText (word : Nat) : String :=
  let names := (family.flags.filter fun flag => word &&& flag.2 == flag.2).map Prod.fst
  let rest := word - family.truncate word
  let parts := if rest = 0 then names else names ++ [hexText rest]
  if parts.isEmpty then hexText 0 else " | ".intercalate parts

/-- The written form of a word. -/
def text (word : Nat) : String :=
  family.name ++ "(" ++ family.bitsText word ++ ")"

end FlagFamily

end FairKernel
