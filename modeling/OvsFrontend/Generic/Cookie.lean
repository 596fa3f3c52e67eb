import Mathlib.Data.List.Basic

/-! `generic.getCookie(name)` reads `document.cookie`, splits it at `;`,
strips the leading blanks of every entry, and decodes the rest of the first
entry that begins with the encoded name, after skipping as many characters
as the name has and one more for the `=`. An entry is accepted as soon as it
*begins* with the name, so a cookie whose name extends the requested one
and stands earlier in the jar answers in its place
(`getCookie_prefix_shadowing`). `encodeURIComponent` and
`decodeURIComponent` are modelled after ECMAScript on Unicode scalar
values; `none` from a decoder is a `URIError`. -/
namespace OvsFrontend.Cookie

/-! ## URI components -/

/-- The characters `encodeURIComponent` keeps: ASCII letters and digits and
`- _ . ! ~ * ( )` and the apostrophe. -/
def unreserved (c : Char) : Bool :=
  c.isAlphanum || c ∈ ['-', '_', '.', '!', '~', '*', Char.ofNat 39, '(', ')']

/-- An upper-case hexadecimal digit. -/
def hexDigit (n : Nat) : Char :=
  if n < 10 then Char.ofNat ('0'.toNat + n) else Char.ofNat ('A'.toNat + n - 10)

/-- `%XY` for one byte. -/
def percentEscape (byte : UInt8) : List Char :=
  ['%', hexDigit (byte.toNat / 16), hexDigit (byte.toNat % 16)]

/-- `encodeURIComponent`: every character outside `unreserved` becomes the
`%XY` escapes of its UTF-8 bytes. -/
def encodeURIComponent (s : String) : String :=
  ⟨s.data.flatMap fun c =>
    if unreserved c then [c] else (String.utf8EncodeChar c).flatMap percentEscape⟩

/-- The value of a hexadecimal digit of either case. -/
def hexValue (c : Char) : Option Nat :=
  if c.isDigit then some (c.toNat - '0'.toNat)
  else if 'a' ≤ c ∧ c ≤ 'f' then some (c.toNat - 'a'.toNat + 10)
  else if 'A' ≤ c ∧ c ≤ 'F' then some (c.toNat - 'A'.toNat + 10)
  else none

/-- What `decodeURIComponent` reads: a character, or the byte of a `%XY`
escape. -/
inductive UriPiece where
  | char (c : Char)
  | byte (b : UInt8)
  deriving DecidableEq, Repr

/-- The pieces of a string; a `%` without two hexadecimal digits after it is
a `URIError`. -/
def pieces : List Char → Option (List UriPiece)
  | [] => some []
  | '%' :: high :: low :: rest =>
    match hexValue high, hexValue low with
    | some h, some l => (.byte (16 * h + l).toUInt8 :: ·) <$> pieces rest
    | _, _ => none
  | '%' :: _ => none
  | c :: rest => (.char c :: ·) <$> pieces rest

/-- The character a UTF-8 sequence encodes, `none` when it is not a valid
encoding of one (overlong forms and surrogates included). -/
def utf8Char (bytes : List UInt8) : Option Char :=
  String.utf8DecodeChar? ⟨bytes.toArray⟩ 0

/-- Decoding the pieces: an escaped byte below `0x80` is a character; a lead
byte takes the continuation bytes its high bits ask for, which must be
escapes that complete a valid UTF-8 sequence. -/
def decodePieces : List UriPiece → Option (List Char)
  | [] => some []
  | .char c :: rest => (c :: ·) <$> decodePieces rest
  | .byte b0 :: rest =>
    if b0 < 0x80 then (Char.ofNat b0.toNat :: ·) <$> decodePieces rest
    else if b0 &&& 0xe0 = 0xc0 then
      match rest with
      | .byte b1 :: rest => do
        let c ← utf8Char [b0, b1]
        (c :: ·) <$> decodePieces rest
      | _ => none
    else if b0 &&& 0xf0 = 0xe0 then
      match rest with
      | .byte b1 :: .byte b2 :: rest => do
        let c ← utf8Char [b0, b1, b2]
        (c :: ·) <$> decodePieces rest
      | _ => none
    else if b0 &&& 0xf8 = 0xf0 then
      match rest with
      | .byte b1 :: .byte b2 :: .byte b3 :: rest => do
        let c ← utf8Char [b0, b1, b2, b3]
        (c :: ·) <$> decodePieces rest
      | _ => none
    else none

/-- `decodeURIComponent`; `none` is a `URIError`. -/
def decodeURIComponent (s : String) : Option String := do
  let read ← pieces s.data
  let decoded ← decodePieces read
  pure ⟨decoded⟩

/-! ## Reading a cookie -/

/-- How `generic.getCookie` ends: with a value, with `null`, or with the
`URIError` `decodeURIComponent` throws. -/
inductive Lookup where
  | value (v : String)
  | null
  | uriError
  deriving DecidableEq, Repr

/-- The `for` loop of `generic.getCookie` over the entries of
`document.cookie`, with `name` already encoded. -/
def findCookie (name : List Char) : List (List Char) → Lookup
  | [] => .null
  | cookie :: cookies =>
    let cookie := cookie.dropWhile (· = ' ')
    if name.isPrefixOf cookie then
      match decodeURIComponent ⟨cookie.drop (name.length + 1)⟩ with
      | some value => .value value
      | none => .uriError
    else findCookie name cookies

/-- `generic.getCookie(name)` on the string `document.cookie`. -/
def getCookie (documentCookie : String) (name : String) : Lookup :=
  findCookie (encodeURIComponent name).data (documentCookie.data.splitOn ';')

/-- `document.cookie` for a jar as the browser presents it: `name=value`
entries, both parts encoded as `generic.setCookie` writes them, joined by
`; `. -/
def cookieString (jar : List (String × String)) : String :=
  "; ".intercalate
    (jar.map fun cookie => encodeURIComponent cookie.1 ++ "=" ++ encodeURIComponent cookie.2)

/-- In the jar `ab=1; a=2` the entry `ab=1` begins with `a`, so
`getCookie('a')` skips two characters of it and returns `'=1'`, not `'2'`. -/
theorem getCookie_prefix_shadowing :
    getCookie (cookieString [("ab", "1"), ("a", "2")]) "a" = .value "=1" := by
  decide

end OvsFrontend.Cookie
