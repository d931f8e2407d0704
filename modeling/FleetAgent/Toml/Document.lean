/-
# TOML documents

A document is a row of lines: headers of tables, keys with their values, comments and empty
lines.  Arrays and inline tables may stand inside one another up to a greatest depth, and the
reader of values is defined by recursion on the depth that is left.
-/
import FleetAgent.Toml.Draft
import FleetAgent.Toml.Scan

namespace FleetAgent.Toml

namespace Scan

/-- What follows a given word. -/
def after? (word : String) (s : List Char) : Option (List Char) :=
  if word.toList.isPrefixOf s then some (s.drop word.length) else none

/-- A floating point number that is not written in digits. -/
def special? (s : List Char) : Option (List Char) :=
  let (_, s) := sign s
  match after? "inf" s with
  | some rest => some rest
  | none => after? "nan" s

/-- A number.  A floating point number must not be so large that it becomes infinite; a
negative one may. -/
def number (s : List Char) : Option (Value × List Char) := do
  let (w, s) ← written s
  match w.exponent with
  | none =>
    let n := if w.negative then -Int.ofNat w.mantissa else Int.ofNat w.mantissa
    if isInt64 n then some (.integer n, s) else none
  | some e =>
    if !w.negative && Numeral.Double.overflows w.mantissa e then none else some (.float, s)

/-- A number in another base than ten. -/
def radixNumber (bits : Nat) (s : List Char) : Option (Value × List Char) := do
  let (n, s) ← radix bits s
  return (.integer n, s)

/-- A number, a date or a time of day. -/
def numeric (s : List Char) : Option (Value × List Char) :=
  if beginsDate s then (dateTime? s).map fun s => (.dateTime, s)
  else if beginsTime s then (time? s).map fun s => (.dateTime, s)
  else match special? s with
    | some rest => some (.float, rest)
    | none =>
      match s with
      | '0' :: 'x' :: s => radixNumber 4 s
      | '0' :: 'o' :: s => radixNumber 3 s
      | '0' :: 'b' :: s => radixNumber 1 s
      | _ => number s

/-- A value that holds no other values. -/
def scalar (s : List Char) : Option (Value × List Char) :=
  match s with
  | '"' :: _ | '\x27' :: _ => (anyString s).map fun r => (.text r.1, r.2)
  | 't' :: _ => (after? "true" s).map fun s => (.boolean true, s)
  | 'f' :: _ => (after? "false" s).map fun s => (.boolean false, s)
  | _ => numeric s

/-- The rest of an array; `fuel` bounds the number of items. -/
def arrayFrom (item : Scan Value) : Nat → List Value → Scan Value
  | 0, _, _ => none
  | fuel + 1, done, s =>
    match blanks s with
    | ']' :: s => some (.array done.reverse, s)
    | s => do
      let (v, s) ← item s
      match blanks s with
      | ',' :: s => arrayFrom item fuel (v :: done) s
      | ']' :: s => some (.array (v :: done).reverse, s)
      | _ => none

/-- A key of an inline table with its value. -/
def pair (item : Scan Value) (s : List Char) : Option ((List String × Value) × List Char) := do
  let (path, s) ← key s
  match s with
  | '=' :: s =>
    let (v, s) ← item (space s)
    return ((path, v), space s)
  | _ => none

/-- The rest of an inline table that is not empty; `fuel` bounds the number of its keys. -/
def inlineFrom (item : Scan Value) : Nat → Draft.Entries → Scan Value
  | 0, _, _ => none
  | fuel + 1, es, s => do
    let ((path, v), s) ← pair item s
    let es ← Draft.insert? path.dropLast (← path.getLast?) v es
    match s with
    | ',' :: s => inlineFrom item fuel es s
    | '\x7d' :: s => some (.table (Draft.entriesValue es), s)
    | _ => none

/-- The rest of an inline table. -/
def inlineTable (item : Scan Value) (s : List Char) : Option (Value × List Char) :=
  match space s with
  | '\x7d' :: s => some (.table [], s)
  | s => inlineFrom item (s.length + 1) [] s

/-- A value inside which arrays and inline tables may be nested to a given depth. -/
def value : Nat → Scan Value
  | 0, s =>
    match s with
    | '[' :: _ | '\x7b' :: _ => none
    | _ => scalar s
  | depth + 1, s =>
    match s with
    | '[' :: s => arrayFrom (value depth) (s.length + 1) [] s
    | '\x7b' :: s => inlineTable (value depth) s
    | _ => scalar s

end Scan

namespace Document

/-- Reads the rest of a table header. -/
def header? (d : Drafts) (s : List Char) : Option (Drafts × List Char) :=
  match s with
  | '[' :: s => do
    let (path, s) ← Scan.key s
    match s with
    | ']' :: ']' :: s => return (← d.openItem? path, ← Scan.lineEnd? s)
    | _ => none
  | s => do
    let (path, s) ← Scan.key s
    match s with
    | ']' :: s => return (← d.openTable? path, ← Scan.lineEnd? s)
    | _ => none

/-- Reads a key with its value. -/
def keyValue? (d : Drafts) (s : List Char) : Option (Drafts × List Char) := do
  let (path, s) ← Scan.key s
  match s with
  | '=' :: s =>
    let (v, s) ← Scan.value Scan.maxDepth (Scan.space s)
    return (← d.insert? path v, ← Scan.lineEnd? s)
  | _ => none

/-- Reads one line. -/
def line? (d : Drafts) (s : List Char) : Option (Drafts × List Char) :=
  match s with
  | '[' :: s => header? d s
  | '#' :: _ | '\n' :: _ | '\r' :: _ => (Scan.lineEnd? s).map fun s => (d, s)
  | _ => keyValue? d s

/-- Reads lines; `fuel` bounds their number. -/
def linesFrom : Nat → Drafts → List Char → Option Drafts
  | 0, _, _ => none
  | fuel + 1, d, s =>
    match Scan.space s with
    | [] => some d
    | s => do
      let (d, s) ← line? d s
      linesFrom fuel d s

/-- The byte order mark. -/
def byteOrderMark : Char := Char.ofNat 0xFEFF

/-- The entries of the root table of a document, which may begin with a byte order mark. -/
def ofChars? (s : List Char) : Option (List (String × Value)) := do
  let s := match s with
    | c :: rest => if c = byteOrderMark then rest else s
    | [] => []
  let d ← linesFrom (s.length + 1) .empty s
  let root ← d.close?
  return Draft.entriesValue root

/-- The entries of the root table of a document. -/
def ofString? (s : String) : Option (List (String × Value)) :=
  ofChars? s.toList

end Document

end FleetAgent.Toml
