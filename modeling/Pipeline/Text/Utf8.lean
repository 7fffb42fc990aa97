/-!
# Text — UTF-8

Decoding of bytes.  `decode?` accepts well-formed UTF-8 only; `decodeLossy` puts U+FFFD for each
longest run of bytes that starts a character and is not continued, and for each byte that can
start none.
-/

namespace Pipeline.Text

/-- The number of bytes that a character takes. -/
def byteLength (cs : List Char) : Nat :=
  cs.foldl (fun n c => n + c.utf8Size) 0

/-- A character in the making: how many bytes are missing, which range the next one has to lie
in, and the bits read so far. -/
structure Unfinished where
  missing : Nat
  low : Nat
  high : Nat
  bits : Nat

/-- What a byte outside any character begins. -/
inductive Lead where
  | char (c : Char)
  | start (u : Unfinished)
  | stray

/-- The shortest-form rules of UTF-8: they narrow the second byte after `E0`, `ED`, `F0`, `F4`. -/
def Lead.ofByte (b : Nat) : Lead :=
  if b < 0x80 then .char (Char.ofNat b)
  else if b < 0xC2 then .stray
  else if b < 0xE0 then .start ⟨1, 0x80, 0xBF, b - 0xC0⟩
  else if b == 0xE0 then .start ⟨2, 0xA0, 0xBF, 0⟩
  else if b == 0xED then .start ⟨2, 0x80, 0x9F, 0xD⟩
  else if b < 0xF0 then .start ⟨2, 0x80, 0xBF, b - 0xE0⟩
  else if b == 0xF0 then .start ⟨3, 0x90, 0xBF, 0⟩
  else if b < 0xF4 then .start ⟨3, 0x80, 0xBF, b - 0xF0⟩
  else if b == 0xF4 then .start ⟨3, 0x80, 0x8F, 4⟩
  else .stray

/-- The replacement character. -/
def replacement : Char := Char.ofNat 0xFFFD

/-- Decodes bytes, `none` standing for each ill-formed piece. -/
def decodePieces : Option Unfinished → List UInt8 → List (Option Char)
  | none, [] => []
  | some _, [] => [none]
  | none, b :: bytes =>
    match Lead.ofByte b.toNat with
    | .char c => some c :: decodePieces none bytes
    | .start u => decodePieces (some u) bytes
    | .stray => none :: decodePieces none bytes
  | some u, b :: bytes =>
    let n := b.toNat
    if u.low ≤ n && n ≤ u.high then
      let bits := u.bits * 64 + (n - 0x80)
      if u.missing ≤ 1 then
        some (Char.ofNat bits) :: decodePieces none bytes
      else
        decodePieces (some ⟨u.missing - 1, 0x80, 0xBF, bits⟩) bytes
    else
      match Lead.ofByte n with
      | .char c => none :: some c :: decodePieces none bytes
      | .start v => none :: decodePieces (some v) bytes
      | .stray => none :: none :: decodePieces none bytes

/-- The text that well-formed UTF-8 stands for. -/
def decode? (bytes : List UInt8) : Option (List Char) :=
  (decodePieces none bytes).mapM id

/-- The text of bytes, each ill-formed piece replaced. -/
def decodeLossy (bytes : List UInt8) : List Char :=
  (decodePieces none bytes).map (·.getD replacement)

/-- The bytes of a text. -/
def encode (cs : List Char) : List UInt8 :=
  (String.ofList cs).toUTF8.toList

end Pipeline.Text
