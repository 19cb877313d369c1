/-!
# Base64

Octets written in the sixty-four characters that pass everywhere: four characters for every three
octets, and equals signs for the octets that are missing in the last group.
-/

namespace PoolWatch.Text

def base64Digit (n : Nat) : Char :=
  if n < 26 then Char.ofNat ('A'.toNat + n)
  else if n < 52 then Char.ofNat ('a'.toNat + (n - 26))
  else if n < 62 then Char.ofNat ('0'.toNat + (n - 52))
  else if n = 62 then '+'
  else '/'

def base64Group (count : Nat) (a b c : UInt8) : List Char :=
  let n := (a.toNat * 256 + b.toNat) * 256 + c.toNat
  ([n / 262144, n / 4096 % 64, n / 64 % 64, n % 64].take count).map base64Digit

def base64 : List UInt8 → List Char
  | [] => []
  | [a] => base64Group 2 a 0 0 ++ ['=', '=']
  | [a, b] => base64Group 3 a b 0 ++ ['=']
  | a :: b :: c :: rest => base64Group 4 a b c ++ base64 rest

end PoolWatch.Text
