import PoolWatch.Text.Quoted
/-!
# Colours

Colours of red, green and blue octets, and the palette that lines take theirs from.
-/

namespace PoolWatch

structure Color where
  red : UInt8
  green : UInt8
  blue : UInt8
  deriving DecidableEq, Repr

namespace Color

def octetText (octet : UInt8) : String :=
  (if octet < 16 then "0" else "") ++ Text.hexadecimal octet.toNat

def hex (c : Color) : String := "#" ++ octetText c.red ++ octetText c.green ++ octetText c.blue

def palette : List Color :=
  [⟨0x1f, 0x77, 0xb4⟩, ⟨0xff, 0x7f, 0x0e⟩, ⟨0x2c, 0xa0, 0x2c⟩, ⟨0xd6, 0x27, 0x28⟩,
    ⟨0x94, 0x67, 0xbd⟩, ⟨0x8c, 0x56, 0x4b⟩, ⟨0xe3, 0x77, 0xc2⟩, ⟨0x7f, 0x7f, 0x7f⟩,
    ⟨0xbc, 0xbd, 0x22⟩, ⟨0x17, 0xbe, 0xcf⟩]

def axis : Color := ⟨0x80, 0x80, 0x80⟩

def ofSeries (index : Nat) : Color := palette.getD (index % palette.length) axis

end Color

end PoolWatch
