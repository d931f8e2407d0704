/-
# Inflating

A deflated stream consists of blocks.  A block is stored as it is, or written in two codes:
one for literal bytes and the lengths of copies, one for the distances that copies reach
back.  The codes are fixed or given at the start of the block.  A copy that reaches back
beyond the start of the output finds zero bytes there.

`inflate` decodes until the last block is complete, the output is as long as was asked for,
or the stream cannot be decoded any further, and tells which of these it was.
-/
import FleetAgent.Deflate.Code

namespace FleetAgent.Deflate

/-- The output so far. -/
abbrev Output := Array UInt8

/-- The result of decoding a part of the stream: the reason to stop with the output up to
there, or the bits that follow with the output. -/
abbrev Progress := Except (Stop × Output) (Bits × Output)

/-- The codes of a block. -/
structure Codes where
  literal : Code
  distance : Code
deriving Repr, Inhabited

/-! ## Tables -/

/-- The least length and the number of extra bits of each length symbol from 257 on. -/
def lengthTable : List (Nat × Nat) :=
  [(3, 0), (4, 0), (5, 0), (6, 0), (7, 0), (8, 0), (9, 0), (10, 0), (11, 1), (13, 1), (15, 1),
    (17, 1), (19, 2), (23, 2), (27, 2), (31, 2), (35, 3), (43, 3), (51, 3), (59, 3), (67, 4),
    (83, 4), (99, 4), (115, 4), (131, 5), (163, 5), (195, 5), (227, 5), (258, 0)]

/-- The least distance and the number of extra bits of each distance symbol. -/
def distanceTable : List (Nat × Nat) :=
  [(1, 0), (2, 0), (3, 0), (4, 0), (5, 1), (7, 1), (9, 2), (13, 2), (17, 3), (25, 3), (33, 4),
    (49, 4), (65, 5), (97, 5), (129, 6), (193, 6), (257, 7), (385, 7), (513, 8), (769, 8),
    (1025, 9), (1537, 9), (2049, 10), (3073, 10), (4097, 11), (6145, 11), (8193, 12),
    (12289, 12), (16385, 13), (24577, 13)]

/-- The symbols whose lengths the code of lengths is given by, in their order. -/
def lengthOrder : List Nat :=
  [16, 17, 18, 0, 8, 7, 9, 6, 10, 5, 11, 4, 12, 3, 13, 2, 14, 1, 15]

/-- The codes of a block that gives none. -/
def fixedCodes : Codes where
  literal := Code.ofLengths (List.replicate 144 8 ++ List.replicate 112 9
    ++ List.replicate 24 7 ++ List.replicate 8 8)
  distance := Code.ofLengths (List.replicate 32 5)

/-- Reads a value given by a symbol of a table and the extra bits of that symbol. -/
def tableValue (table : List (Nat × Nat)) (symbol : Nat) (s : Bits) : Except Stop (Nat × Bits) :=
  match table[symbol]? with
  | some (least, extra) => do
    let (n, s) ← Bits.number extra s
    return (least + n, s)
  | none => .error .invalid

/-! ## Codes in front of a block -/

/-- Lengths with `n` more of one value behind them. -/
def appendRun (lengths : List Nat) (n value : Nat) : List Nat :=
  lengths ++ List.replicate n value

/-- Reads one item of a list of lengths: a length, or a run of the previous length or of
zeros. -/
def lengthItem (code : Code) (s : Bits) (lengths : List Nat) : Except Stop (Bits × List Nat) := do
  let (symbol, s) ← code.read s
  if symbol < 16 then return (s, lengths ++ [symbol])
  else if symbol = 16 then
    match lengths.getLast? with
    | none => .error .invalid
    | some previous =>
      let (n, s) ← Bits.number 2 s
      return (s, appendRun lengths (3 + n) previous)
  else if symbol = 17 then
    let (n, s) ← Bits.number 3 s
    return (s, appendRun lengths (3 + n) 0)
  else
    let (n, s) ← Bits.number 7 s
    return (s, appendRun lengths (11 + n) 0)

/-- Reads a list of `total` lengths, which no run may exceed. -/
def lengthItems (code : Code) (total : Nat) :
    Nat → Bits → List Nat → Except Stop (Bits × List Nat)
  | 0, s, lengths => if lengths.length = total then .ok (s, lengths) else .error .invalid
  | fuel + 1, s, lengths =>
    if lengths.length = total then .ok (s, lengths)
    else if total < lengths.length then .error .invalid
    else do
      let (s, lengths) ← lengthItem code s lengths
      lengthItems code total fuel s lengths

/-- Reads the lengths of the first `n` symbols in `lengthOrder`. -/
def orderedLengths : Nat → Bits → Except Stop (Bits × List Nat)
  | 0, s => .ok (s, [])
  | n + 1, s => do
    let (length, s) ← Bits.number 3 s
    let (s, lengths) ← orderedLengths n s
    return (s, length :: lengths)

/-- The lengths of symbols 0 to 18, given those of the first symbols in `lengthOrder`. -/
def reorder (given : List Nat) : List Nat :=
  (List.range 19).map fun symbol => ((lengthOrder.zip given).lookup symbol).getD 0

/-- Reads the codes of a block that gives its own. -/
def givenCodes (s : Bits) : Except Stop (Codes × Bits) := do
  let (a, s) ← Bits.number 5 s
  let (b, s) ← Bits.number 5 s
  let (c, s) ← Bits.number 4 s
  let literals := 257 + a
  let distances := 1 + b
  if 286 < literals ∨ 30 < distances then .error .invalid
  else
    let (s, given) ← orderedLengths (4 + c) s
    let lengths := reorder given
    if !Code.isComplete lengths then .error .invalid
    else
      let total := literals + distances
      -- one list holds both kinds of lengths, so a run may go from one kind into the other
      let (s, all) ← lengthItems (Code.ofLengths lengths) total total s []
      let distance ← Code.ofLengths? (all.drop literals)
      let literal ← Code.ofLengths? (all.take literals)
      return (⟨literal, distance⟩, s)

/-! ## Blocks -/

/-- Appends `length` bytes, each a copy of the one `distance` bytes before it. -/
def copyBack (distance : Nat) : Nat → Output → Output
  | 0, out => out
  | length + 1, out =>
    let byte := if distance ≤ out.size then out[out.size - distance]?.getD 0 else 0
    copyBack distance length (out.push byte)

/-- Reads the rest of a copy whose length symbol has been read. -/
def copyOf (codes : Codes) (symbol : Nat) (s : Bits) : Except Stop ((Nat × Nat) × Bits) := do
  let (length, s) ← tableValue lengthTable (symbol - 257) s
  let (symbol, s) ← codes.distance.read s
  let (distance, s) ← tableValue distanceTable symbol s
  return ((length, distance), s)

/-- Decodes a block up to its end, or up to `limit` bytes of output. -/
def symbols (codes : Codes) (limit : Nat) : Nat → Bits → Output → Progress
  | 0, _, out => .error (.truncated, out)
  | fuel + 1, s, out =>
    if limit ≤ out.size then .error (.full, out)
    else match codes.literal.read s with
      | .error e => .error (e, out)
      | .ok (symbol, s) =>
        if symbol < 256 then symbols codes limit fuel s (out.push (UInt8.ofNat symbol))
        else if symbol = 256 then .ok (s, out)
        else match copyOf codes symbol s with
          | .error e => .error (e, out)
          | .ok ((length, distance), s) =>
            symbols codes limit fuel s (copyBack distance length out)

/-- Reads the data of a stored block: its length, the complement of the length, the bytes. -/
def storedBytes (s : Bits) : Except Stop (List UInt8 × Bits) := do
  let (header, s) ← s.bytes 4
  match header with
  | [a, b, c, d] =>
    let length := a.toNat + 256 * b.toNat
    if length + (c.toNat + 256 * d.toNat) = 0xFFFF then s.bytes length else .error .invalid
  | _ => .error .invalid

/-- Decodes one block of the given type. -/
def block (limit type : Nat) (s : Bits) (out : Output) : Progress :=
  match type with
  | 0 =>
    match storedBytes s with
    | .error e => .error (e, out)
    | .ok (bytes, s) => .ok (s, out ++ bytes.toArray)
  -- every symbol takes up a bit at least, so the bits that are left bound their number
  | 1 => symbols fixedCodes limit (s.size + 1) s out
  | 2 =>
    match givenCodes s with
    | .error e => .error (e, out)
    | .ok (codes, s) => symbols codes limit (s.size + 1) s out
  | _ => .error (.invalid, out)

/-- Reads the header of a block: whether it is the last, and its type. -/
def blockHeader (s : Bits) : Except Stop ((Bool × Nat) × Bits) := do
  let (last, s) ← s.next
  let (type, s) ← Bits.number 2 s
  return ((last, type), s)

/-- Decodes blocks. -/
def blocks (limit : Nat) : Nat → Bits → Output → Stop × Output
  | 0, _, out => (.truncated, out)
  | fuel + 1, s, out =>
    if limit ≤ out.size then (.full, out)
    else match blockHeader s with
      | .error e => (e, out)
      | .ok ((last, type), s) =>
        match block limit type s out with
        | .error r => r
        | .ok (s, out) => if last then (.finished, out) else blocks limit fuel s out

/-- Decodes a deflated stream up to `limit` bytes of output. -/
def inflate (limit : Nat) (stream : List UInt8) : Stop × List UInt8 :=
  let (stop, out) := blocks limit (8 * stream.length + 1) (Bits.ofBytes stream) #[]
  (stop, out.toList)

end FleetAgent.Deflate
