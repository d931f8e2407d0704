/-
# Hosts

The host of a URL is a name or a numeric address.  For the special schemes a name is
unescaped and normalised, some characters are forbidden in it, and a name whose last label is
a number must be an address of four numbers.  For other schemes the host is taken as it is,
as long as it holds no forbidden character.  In brackets stands an address of eight groups.
-/
import FleetAgent.Numeral.Integer
import FleetAgent.Text.Pieces
import FleetAgent.Url.Escape
import FleetAgent.Url.Punycode

namespace FleetAgent.Url.Host

/-! ## Addresses of four numbers -/

/-- The value of digits in a base, if they are digits of that base. -/
def digits? (base : Nat) (s : List Char) : Option Nat :=
  s.foldlM (fun n c =>
    match Text.Hex.value? c with
    | some d => if d < base then some (base * n + d) else none
    | none => none) 0

/-- A number of an address: hexadecimal behind `0x`, octal behind `0`, otherwise decimal. -/
def number? (s : List Char) : Option Nat :=
  match s with
  | [] => none
  | '0' :: 'x' :: ds | '0' :: 'X' :: ds => digits? 16 ds
  | '0' :: d :: ds => digits? 8 (d :: ds)
  | ds => digits? 10 ds

/-- The labels of a name, without the empty one behind a final dot. -/
def labels (s : List Char) : List (List Char) :=
  let parts := Text.splitAt (· == '.') s
  if parts.getLast? = some [] then parts.dropLast else parts

/-- Whether the last label of a name is a number. -/
def endsInNumber (s : List Char) : Bool :=
  match (labels s).getLast? with
  | some last => (!last.isEmpty && last.all Numeral.isDigit) || (number? last).isSome
  | none => false

/-- Whether a name is an address of at most four numbers: each but the last fits a byte, and
the last fits the bytes that are left. -/
def isAddress4 (s : List Char) : Bool :=
  let parts := labels s
  match parts.mapM number? with
  | none => false
  | some ns =>
    match ns.reverse with
    | [] => false
    | last :: before =>
      ns.length ≤ 4 && before.all (· ≤ 255) && last < Nat.pow 256 (4 - before.length)

/-! ## Addresses of eight groups -/

/-- Whether a text is four decimal numbers of one byte each. -/
def isDotted (s : List Char) : Bool :=
  let parts := Text.splitAt (· == '.') s
  parts.length == 4 && parts.all fun p =>
    (p.length == 1 || p.head? != some '0') && match Numeral.natural? p with
      | some n => n ≤ 255
      | none => false

/-- The number of groups in a text of groups between colons, of which the last may be a
dotted address and count for two. -/
def groupCount? (dotted : Bool) (s : List Char) : Option Nat :=
  if s.isEmpty then some 0
  else
    let parts := Text.splitAt (· == ':') s
    let isGroup := fun (p : List Char) =>
      !p.isEmpty && p.length ≤ 4 && p.all Text.Hex.isDigit
    match parts.getLast? with
    | none => some 0
    | some last =>
      if parts.dropLast.all isGroup then
        if isGroup last then some parts.length
        else if dotted && isDotted last then some (parts.length + 1)
        else none
      else none

/-- Whether a text is an address of eight groups, of which one run of at least one zero group
may be left out. -/
def isAddress6 (s : List Char) : Bool :=
  match Text.cut? [':', ':'] s with
  | none => groupCount? true s == some 8
  | some (before, after) =>
    match groupCount? false before, groupCount? true after with
    | some m, some n => m + n ≤ 7
    | _, _ => false

/-! ## Names -/

/-- Whether a character may not stand in any host. -/
def isForbidden (c : Char) : Bool :=
  c == '\x00' || c == '\t' || c == '\n' || c == '\r' || " #/:<>?@[\\]^|".toList.contains c

/-- Whether a character may not stand in a name. -/
def isForbiddenInName (c : Char) : Bool :=
  isForbidden c || c.toNat < 0x20 || c.toNat == 0x7F || c == '%' || c == '\x60' || c == '\x7b'
    || c == '\x7d'

/-- Whether a character is left out when a name is normalised. -/
def isIgnored (c : Char) : Bool :=
  let n := c.toNat
  n == 0xAD || n == 0x200B || n == 0x2060 || n == 0xFEFF || (0xFE00 ≤ n && n ≤ 0xFE0F)

/-- The character that stands for one in a normalised name: ASCII for its full-width forms
and the dots of other scripts. -/
def normalize (c : Char) : Char :=
  let n := c.toNat
  if 0xFF01 ≤ n ∧ n ≤ 0xFF5E then Char.ofNat (n - 0xFEE0)
  else if n = 0x3002 ∨ n = 0xFF61 then '.'
  else if n = 0xA0 ∨ n = 0x3000 then ' '
  else c

/-- Whether a character has no place in a name at all: what is no character, private or a
control character. -/
def isDisallowed (c : Char) : Bool :=
  let n := c.toNat
  (0x80 ≤ n && n ≤ 0x9F) || (0x200C ≤ n && n ≤ 0x200F) || (0x2028 ≤ n && n ≤ 0x202E)
    || (0xE000 ≤ n && n ≤ 0xF8FF) || (0xFDD0 ≤ n && n ≤ 0xFDEF) || (0xFFF9 ≤ n && n ≤ 0xFFFF)
    || 0xE0000 ≤ n || n % 0x10000 == 0xFFFE || n % 0x10000 == 0xFFFF

/-- The normalised form of a name. -/
def normalized (s : List Char) : List Char :=
  ((s.filter fun c => !isIgnored c).map normalize).map Char.toLower

/-- Whether a character is ASCII. -/
def isAscii (c : Char) : Bool :=
  c.toNat < 0x80

/-- Whether a label of a normalised name is sound: one in Punycode must stand for a label that
needs it and is normalised. -/
def isLabel (label : List Char) : Bool :=
  match label with
  | 'x' :: 'n' :: '-' :: '-' :: code =>
    match Punycode.decode? code with
    | some s => !s.all isAscii && !s.any isDisallowed && normalized s == s
    | none => false
  | _ => true

/-- Whether a text is the host of a URL with a special scheme. -/
def isSpecialHost (s : List Char) : Bool :=
  match s with
  | '[' :: rest => rest.getLast? == some ']' && isAddress6 rest.dropLast
  | _ =>
    let name := normalized (Text.Utf8.decodeLossyChars (unescape s))
    !name.isEmpty && !name.any isForbiddenInName && !name.any isDisallowed
      && (Text.splitAt (· == '.') name).all isLabel && (!endsInNumber name || isAddress4 name)

/-- Whether a text is the host of a URL with another scheme. -/
def isOpaqueHost (s : List Char) : Bool :=
  match s with
  | '[' :: rest => rest.getLast? == some ']' && isAddress6 rest.dropLast
  | _ => !s.any isForbidden

end FleetAgent.Url.Host
