import PaneCompletion.Text.Quoted

/-!
# Reading UTF-8

A file is its bytes; `decode?` reads them as text. The reader is a machine over single bytes that
knows how many continuation bytes are owed and between which bounds the next one has to lie, so
that overlong forms, surrogates and code points above U+10FFFF are refused at the first byte that
rules them out. A byte that does not fit ends the sequence before it as broken and is read again
as a first byte.

1. sequences and what breaks them;
2. the machine;
3. texts;
4. files that are read block by block.
-/

namespace PaneCompletion.Text.Utf8

/-! ## Sequences -/

/-- Why a sequence is broken. -/
inductive Fault where
  /-- Its first byte begins none. -/
  | start
  /-- The byte after it does not go on with it. -/
  | continuation
  /-- The bytes end inside it. -/
  | ending
  deriving DecidableEq, Repr

/-- A broken sequence: the bytes that belong to it, and why it is broken. -/
structure Broken where
  bytes : List UInt8
  fault : Fault
  deriving DecidableEq, Repr

/-- What bytes amount to: a character, or a broken sequence. -/
inductive Item where
  | char (c : Char)
  | broken (b : Broken)
  deriving DecidableEq, Repr

/-- A sequence under way: continuation bytes still owed, the bounds of the next one, and the bits
and bytes read so far. -/
structure Partial where
  owed : Nat
  low : Nat
  high : Nat
  bits : Nat
  bytes : List UInt8

/-- What a first byte means. -/
inductive First where
  | char (c : Char)
  | opens (p : Partial)
  | invalid

/-! ## The machine -/

/-- Read a byte between two characters. -/
def first (byte : UInt8) : First :=
  let b := byte.toNat
  if b < 0x80 then .char (Char.ofNat b)
  else if b < 0xC2 then .invalid
  else if b < 0xE0 then .opens ⟨1, 0x80, 0xBF, b - 0xC0, [byte]⟩
  else if b < 0xF0 then
    .opens ⟨2, if b = 0xE0 then 0xA0 else 0x80, if b = 0xED then 0x9F else 0xBF, b - 0xE0, [byte]⟩
  else if b < 0xF5 then
    .opens ⟨3, if b = 0xF0 then 0x90 else 0x80, if b = 0xF4 then 0x8F else 0xBF, b - 0xF0, [byte]⟩
  else .invalid

/-- Read the bytes. -/
def scan : Option Partial → List UInt8 → List Item
  | none, [] => []
  | some p, [] => [.broken ⟨p.bytes, .ending⟩]
  | none, b :: rest =>
    match first b with
    | .char c => .char c :: scan none rest
    | .opens p => scan (some p) rest
    | .invalid => .broken ⟨[b], .start⟩ :: scan none rest
  | some p, b :: rest =>
    if p.low ≤ b.toNat ∧ b.toNat ≤ p.high then
      let bits := p.bits * 64 + (b.toNat - 0x80)
      if p.owed = 1 then .char (Char.ofNat bits) :: scan none rest
      else scan (some ⟨p.owed - 1, 0x80, 0xBF, bits, p.bytes ++ [b]⟩) rest
    else
      .broken ⟨p.bytes, .continuation⟩ :: match first b with
        | .char c => .char c :: scan none rest
        | .opens q => scan (some q) rest
        | .invalid => .broken ⟨[b], .start⟩ :: scan none rest

/-! ## Texts -/

/-- The characters, where no sequence is broken. -/
def allWhole : List Item → Option Text
  | [] => some []
  | .broken _ :: _ => none
  | .char c :: rest => (allWhole rest).map (c :: ·)

/-- The text, unless some sequence is broken. -/
def decode? (bytes : List UInt8) : Option Text := allWhole (scan none bytes)

/-- The text with U+FFFD for each broken sequence. -/
def decodeLossy (bytes : List UInt8) : Text :=
  (scan none bytes).map fun
    | .char c => c
    | .broken _ => '\uFFFD'

/-! ## Blocks -/

/-- A broken sequence with its offset in the bytes it was read with. -/
structure Defect where
  offset : Nat
  broken : Broken
  deriving DecidableEq, Repr

/-- The first broken sequence of some items, the first of which has an offset. -/
def firstDefect? (offset : Nat) : List Item → Option Defect
  | [] => none
  | .char c :: rest => firstDefect? (offset + c.utf8Size) rest
  | .broken b :: _ => some ⟨offset, b⟩

/-- Whether a defect at the end of a block may yet be mended by the next block: the sequence is cut
off there. The two bytes that begin a surrogate count as cut off, too. -/
def Defect.waits (defect : Defect) (block : List UInt8) : Bool :=
  match defect.broken.fault, block.drop defect.offset with
  | .ending, _ => true
  | .continuation, [a, b] => a == 0xED && 0xA0 ≤ b && b ≤ 0xBF
  | _, _ => false

/-- The first defect of a file whose blocks are read in order. What waits at the end of a block is
read again in front of the next one, and offsets count from there. -/
def defectIn? (left : List UInt8) : List (List UInt8) → Option Defect
  | [] => firstDefect? 0 (scan none left)
  | block :: rest =>
    let bytes := left ++ block
    match firstDefect? 0 (scan none bytes) with
    | none => defectIn? [] rest
    | some defect =>
      if defect.waits bytes then defectIn? (bytes.drop defect.offset) rest else some defect

/-- The number of bytes in a block. -/
def blockSize : Nat := 8192

/-- The blocks of a file. -/
def blocks (bytes : List UInt8) : List (List UInt8) :=
  if bytes.isEmpty then [] else bytes.take blockSize :: blocks (bytes.drop blockSize)
termination_by bytes.length
decreasing_by
  have : bytes.length ≠ 0 := by simp_all
  simp only [List.length_drop, blockSize]
  omega

/-- The text of a file, or the first defect met in reading it block by block; where none is met,
every sequence is whole. -/
def readFile (bytes : List UInt8) : Except Defect Text :=
  match defectIn? [] (blocks bytes) with
  | some defect => .error defect
  | none => .ok (decodeLossy bytes)

/-- The wording of a fault. -/
def Fault.text : Fault → Text
  | .start => "invalid start byte".toList
  | .continuation => "invalid continuation byte".toList
  | .ending => "unexpected end of data".toList

/-- The wording of a defect. -/
def Defect.message (defect : Defect) : Text :=
  let place :=
    match defect.broken.bytes with
    | [b] => "byte 0x".toList ++ hexadecimal 2 b.toNat ++ " in position ".toList ++
        (toString defect.offset).toList
    | bytes => "bytes in position ".toList ++ (toString defect.offset).toList ++
        '-' :: (toString (defect.offset + bytes.length - 1)).toList
  "'utf-8' codec can't decode ".toList ++ place ++ ':' :: ' ' :: defect.broken.fault.text

end PaneCompletion.Text.Utf8
