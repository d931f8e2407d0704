/-
# Addresses of connections

A connection is made to an address of the form `scheme://authority/path?query#fragment`, where the
path, the query and the fragment may be missing.  In an authority colons part the host from what
stands behind it, and stand in front of an at sign or in brackets as well; a percent sign may stand
only there.  Paths and queries may have characters that should be escaped in them, but are not
taken for anything else.
-/
import FleetAgent.Text.Pieces

namespace FleetAgent.Channel

/-- Whether a character may stand in the scheme of an address. -/
def isSchemeChar (c : Char) : Bool :=
  c.isAlphanum || c == '+' || c == '-' || c == '.'

/-! ## Authorities -/

/-- Whether a character belongs to the authority in front of it. -/
def isInAuthority (c : Char) : Bool :=
  c != '/' && c != '?' && c != '#'

/-- Whether a character may stand anywhere in an authority. -/
def isAuthorityChar (c : Char) : Bool :=
  c.isAlphanum || "!$&'()*+,;=-._~".toList.contains c

/-- What is known of the characters of an authority that have been read. -/
structure Authority where
  /-- The colons since the last at sign or closing bracket. -/
  colons : Nat
  opened : Bool
  closed : Bool
  /-- Whether there is a percent sign since the last at sign or closing bracket. -/
  percent : Bool
deriving DecidableEq, Repr, Inhabited

namespace Authority

/-- The most colons in a row of characters without an at sign and a closing bracket. -/
def maxColons : Nat := 8

/-- Reads one character; an error gives nothing. -/
def next? (a : Authority) (c : Char) : Option Authority :=
  if c = ':' then if a.colons < maxColons then some { a with colons := a.colons + 1 } else none
  else if c = '[' then if a.percent || a.opened then none else some { a with opened := true }
  else if c = ']' then
    if a.opened && !a.closed then some ⟨0, true, true, false⟩ else none
  else if c = '@' then some { a with colons := 0, percent := false }
  else if c = '%' then some { a with percent := true }
  else if isAuthorityChar c then some a
  else none

/-- Whether an authority may end. -/
def isEnd (a : Authority) : Bool :=
  a.opened == a.closed && a.colons ≤ 1 && !a.percent

end Authority

/-- Whether a text is an authority. -/
def isAuthority (s : List Char) : Bool :=
  match s.foldlM Authority.next? ⟨0, false, false, false⟩ with
  | some a => a.isEnd && !s.isEmpty && s.getLast? != some '@'
  | none => false

/-! ## Addresses -/

/-- Whether a character may stand in the path of an address. -/
def isPathChar (c : Char) : Bool :=
  0x21 ≤ c.toNat && c != '#' && c != '?' && c != '<' && c != '>' && c != '\x60'

/-- Whether a character may stand in the query of an address; the question mark in front of it
may, too. -/
def isQueryChar (c : Char) : Bool :=
  0x21 ≤ c.toNat && c != '"' && c != '#' && c != '<' && c != '>'

/-- Whether a text may stand behind the authority of an address; nothing is asked of a
fragment. -/
def isTarget (s : List Char) : Bool :=
  let located := s.takeWhile (· != '#')
  (located.takeWhile (· != '?')).all isPathChar && (located.dropWhile (· != '?')).all isQueryChar

/-- Whether a text is an address that a connection can be made to. -/
def isAddress (url : String) : Bool :=
  match Text.cut? [':', '/', '/'] url.toList with
  | none => false
  | some (scheme, rest) =>
    !scheme.isEmpty && scheme.all isSchemeChar && isAuthority (rest.takeWhile isInAuthority)
      && isTarget (rest.dropWhile isInAuthority)

/-- Whether the scheme of an address is one of web sockets. -/
def isSocketAddress (url : String) : Bool :=
  match Text.cut? [':', '/', '/'] url.toList with
  | some (scheme, _) => scheme == ['w', 's'] || scheme == ['w', 's', 's']
  | none => false

end FleetAgent.Channel
