import Mathlib.Data.List.Basic

/-!
# Base64

The text form of the bytes of a forwarded stream (`lvu-shared/src/protocol.rs`).  A text is the
list of its bytes.

* `decodedBase64Len` : the spelling rules, and the number of bytes a text stands for.
* `base64DecodeBounded` : the bytes, if there are as many as expected.
* `checkStdinChunkBase64` : a text of a chunk that fits the bound.
-/

namespace Lvu.Shared

def maxStdinChunkBytes : ℕ := 64 * 1024

/-- `ProtocolError`, as far as it concerns chunks. -/
inductive ProtocolError
  | badBase64 (reason : String)
  | chunkTooLarge (decoded : ℕ)

/-- The text of a `ProtocolError`. -/
def ProtocolError.text : ProtocolError → String
  | .badBase64 reason => s!"invalid base64: {reason}"
  | .chunkTooLarge decoded =>
    s!"stdin chunk decodes to {decoded} bytes; limit is {maxStdinChunkBytes}"

/-- `BASE64_ALPHABET`: the upper case, the lower case, the digits, `+` and `/`. -/
def base64Alphabet : List UInt8 :=
  (List.range 26).map (fun k => (65 + k).toUInt8) ++ (List.range 26).map (fun k => (97 + k).toUInt8) ++
    (List.range 10).map (fun k => (48 + k).toUInt8) ++ [43, 47]

/-- The byte `=`. -/
def base64Padding : UInt8 := 61

/-- The loop of `decoded_base64_len`: the number of padding bytes. -/
def base64Paddings : List UInt8 → ℕ → Bool → ℕ → Except ProtocolError ℕ
  | [], _, _, padding => .ok padding
  | byte :: bytes, index, paddingSeen, padding =>
    if byte = base64Padding then base64Paddings bytes (index + 1) true (padding + 1)
    else if paddingSeen then .error (.badBase64 s!"data at byte {index} follows padding")
    else if byte ∉ base64Alphabet then
      .error (.badBase64 s!"byte {index} is outside the alphabet")
    else base64Paddings bytes (index + 1) paddingSeen padding

def decodedBase64Len (encoded : List UInt8) : Except ProtocolError ℕ := do
  if encoded.length % 4 ≠ 0 then throw (.badBase64 "length is not a multiple of 4")
  let padding ← base64Paddings encoded 0 false 0
  if padding > 2 then throw (.badBase64 "more than two padding bytes")
  return encoded.length / 4 * 3 - padding

/-- The loop of `base64_decode_bounded` over a quantum: its bits, and its padding bytes. -/
def base64Quantum : List UInt8 → UInt32 → ℕ → Option (UInt32 × ℕ)
  | [], triple, padding => some (triple, padding)
  | byte :: quantum, triple, padding =>
    if byte = base64Padding then base64Quantum quantum (triple <<< 6) (padding + 1)
    else do
      let value ← base64Alphabet.idxOf? byte
      if padding > 0 then none
      else base64Quantum quantum (triple <<< 6 ||| value.toUInt32) padding

/-- The bytes of a quantum. -/
def base64Bytes (triple : UInt32) (padding : ℕ) : List UInt8 :=
  [(triple >>> 16).toUInt8] ++ (if padding < 2 then [(triple >>> 8).toUInt8] else []) ++
    if padding = 0 then [triple.toUInt8] else []

/-- The loop of `base64_decode_bounded` over the quanta. -/
def base64Quanta : List UInt8 → Option (List UInt8)
  | a :: b :: c :: d :: quanta => do
    let (triple, padding) ← base64Quantum [a, b, c, d] 0 0
    if padding > 2 then none
    else return base64Bytes triple padding ++ (← base64Quanta quanta)
  | _ => some []

def base64DecodeBounded (encoded : List UInt8) (decoded : ℕ) : Option (List UInt8) :=
  if encoded.length % 4 ≠ 0 then none
  else do
    let out ← base64Quanta encoded
    if out.length = decoded then some out else none

def checkStdinChunkBase64 (encoded : List UInt8) : Except ProtocolError ℕ := do
  let decoded ← decodedBase64Len encoded
  if decoded > maxStdinChunkBytes then throw (.chunkTooLarge decoded)
  return decoded

/-- "QUI=" stands for the two bytes "AB". -/
example : base64DecodeBounded [81, 85, 73, 61] 2 = some [65, 66] := by decide

end Lvu.Shared
