import PoolWatch.Http.Head
import PoolWatch.Json.Text
/-!
# Chunks

A body whose length is not known in advance comes in chunks: a line with the size in hexadecimal
digits, so many octets, and a line end. An empty chunk is the last one; fields can follow it, and
an empty line ends them.
-/

namespace PoolWatch.Http

/-! ## Sizes -/

def sizeBound : Nat := 0x10000000000000000

def extensionRoom : Nat := 0x3fff

def isHexDigit (octet : UInt8) : Bool := (Json.hexDigit? octet).isSome

def sizeFrom (digits : List UInt8) : Nat :=
  digits.foldl (fun size digit => size * 16 + (Json.hexDigit? digit).getD 0) 0

/-- The size of a chunk and its extension, from the line in front of it. -/
def chunkSize? (line : List UInt8) : Option (Nat × List UInt8) :=
  let digits := line.takeWhile isHexDigit
  if digits.isEmpty || sizeBound ≤ sizeFrom digits then none
  else
    match (line.dropWhile isHexDigit).dropWhile isSpace with
    | [] => some (sizeFrom digits, [])
    | 0x3b :: extension =>
      if extension.contains 0x0a then none else some (sizeFrom digits, extension)
    | _ => none

/-! ## Trailers -/

def trailerBound : Nat := 0x4000

def trailerLines? (text : List UInt8) : Option (List (List UInt8)) :=
  match h : strictLine? text with
  | none => none
  | some ([], _) => some []
  | some (line, rest) =>
    have := length_lt_of_strictLine? h
    (trailerLines? rest).map (line :: ·)
termination_by text.length

/-- Whether the lines of a trailer are fields. A line feed alone ends a field too, but there
cannot be more fields than lines. -/
def areFields (lines : List (List UInt8)) : Bool :=
  let trailer := (lines ++ [[]]).flatMap (· ++ [0x0d, 0x0a])
  decide (lines.length < mostFields) && decide (trailer.length < trailerBound) &&
    ((lines? lines.length trailer).bind fun (lines, _) => lines.mapM field?).isSome

def hasTrailer (text : List UInt8) : Bool :=
  match trailerLines? text with
  | none => false
  | some lines => lines.isEmpty || areFields lines

/-! ## Bodies -/

def chunks? (room : Nat) (text : List UInt8) : Option (List UInt8) :=
  match h : strictLine? text with
  | none => none
  | some (line, rest) =>
    match chunkSize? line with
    | none => none
    | some (size, extension) =>
      if room < extension.length then none
      else if size = 0 then if hasTrailer rest then some [] else none
      else
        match hd : rest.drop size with
        | 0x0d :: 0x0a :: next =>
          have : next.length < text.length := by
            have := length_lt_of_strictLine? h
            have := congrArg List.length hd
            simp only [List.length_drop, List.length_cons] at this
            omega
          (chunks? (room - extension.length) next).map (rest.take size ++ ·)
        | _ => none
termination_by text.length

end PoolWatch.Http
