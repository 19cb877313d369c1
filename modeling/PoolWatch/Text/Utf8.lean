/-!
# Octets and characters

The characters that a list of octets encodes in UTF-8: shortest forms only, no surrogates,
nothing beyond the last code point.
-/

namespace PoolWatch.Text

def continuation? (octet : UInt8) : Option Nat :=
  if 0x80 ≤ octet ∧ octet < 0xc0 then some (octet.toNat - 0x80) else none

def character? (least code : Nat) : Option Char :=
  if h : code.isValidChar then
    if least ≤ code then some (Char.ofNatAux code h) else none
  else none

def decodeUtf8 : List UInt8 → Option (List Char)
  | [] => some []
  | a :: rest =>
    if a < 0x80 then
      (decodeUtf8 rest).map (Char.ofNat a.toNat :: ·)
    else if a < 0xc0 then none
    else if a < 0xe0 then
      match rest with
      | b :: rest => do
        let c ← character? 0x80 ((a.toNat - 0xc0) * 64 + (← continuation? b))
        return c :: (← decodeUtf8 rest)
      | _ => none
    else if a < 0xf0 then
      match rest with
      | b :: c :: rest => do
        let d ← character? 0x800
          (((a.toNat - 0xe0) * 64 + (← continuation? b)) * 64 + (← continuation? c))
        return d :: (← decodeUtf8 rest)
      | _ => none
    else if a < 0xf8 then
      match rest with
      | b :: c :: d :: rest => do
        let e ← character? 0x10000
          ((((a.toNat - 0xf0) * 64 + (← continuation? b)) * 64 + (← continuation? c)) * 64 +
            (← continuation? d))
        return e :: (← decodeUtf8 rest)
      | _ => none
    else none

end PoolWatch.Text
