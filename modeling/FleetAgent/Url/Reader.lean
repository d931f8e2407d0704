/-
# Reading URLs

`Url.ofString?` reads a URL by the rules of the web: blanks and control characters around the
text and line ends and tabs inside it are dropped; the special schemes always have a host and
take a backslash for a slash; and the segments `.` and `..`, also in escaped form, are resolved.
Of international names only the letters are looked at that the tables in `Host` know.

The agent works with any way of reading URLs, and nothing that is proved of it depends on this one.
-/
import FleetAgent.Url.Basic
import FleetAgent.Url.Host

namespace FleetAgent.Url

/-! ## Schemes -/

/-- Whether a character may stand in a scheme behind its first letter. -/
def isSchemeChar (c : Char) : Bool :=
  c.isAlphanum || c == '+' || c == '-' || c == '.'

/-- The scheme in lower case, and what follows its colon. -/
def scheme? (s : List Char) : Option (String × List Char) :=
  match s.takeWhile isSchemeChar, s.dropWhile isSchemeChar with
  | c :: cs, ':' :: rest =>
    if c.isAlpha then some (String.ofList ((c :: cs).map Char.toLower), rest) else none
  | _, _ => none

/-- The kinds of schemes. -/
inductive Kind where
  | special
  | file
  | other
deriving DecidableEq, Repr

/-- The kind of a scheme. -/
def Kind.ofScheme (scheme : String) : Kind :=
  if scheme = "file" then .file
  else if ["http", "https", "ws", "wss", "ftp"].contains scheme then .special
  else .other

/-- Whether a character separates the parts of a path. -/
def isSlash (kind : Kind) (c : Char) : Bool :=
  c == '/' || (c == '\\' && kind != .other)

/-- Whether a character ends the authority of a URL. -/
def endsAuthority (kind : Kind) (c : Char) : Bool :=
  isSlash kind c || c == '?' || c == '#'

/-! ## Paths -/

/-- Whether a segment is a drive letter, which `..` does not remove. -/
def isDrive : List Char → Bool
  | [c, d] => c.isAlpha && (d == ':' || d == '|')
  | _ => false

/-- A segment with its escaped dots replaced, for comparison with `.` and `..`. -/
def unescapeDots : List Char → List Char
  | '%' :: '2' :: 'e' :: s | '%' :: '2' :: 'E' :: s => '.' :: unescapeDots s
  | c :: s => c :: unescapeDots s
  | [] => []

/-- The segments after one more segment; `last` tells whether it ends the path.  Segments are
held in reverse. -/
def push (kind : Kind) (done : List (List Char)) (segment : List Char) (last : Bool) :
    List (List Char) :=
  let dots := unescapeDots segment
  if dots = ['.', '.'] then
    let kept := match done with
      | s :: rest => if isDrive s then s :: rest else rest
      | [] => []
    -- a path that ends in dots ends in an empty segment
    if last then [] :: kept else kept
  else if dots = ['.'] then
    if last then [] :: done else done
  else if kind = .file ∧ done.isEmpty ∧ isDrive segment then [segment.headD ' ', ':'] :: done
  else escape escapedInPath segment :: done

/-- Pushes segments in their order. -/
def pushAll (kind : Kind) : List (List Char) → List (List Char) → List (List Char)
  | done, [] => done
  | done, [segment] => push kind done segment true
  | done, segment :: rest => pushAll kind (push kind done segment false) rest

/-- The segments of a path; a slash in front of it counts as its start. -/
def pathSegments (kind : Kind) (s : List Char) : List String :=
  let s := match s with
    | c :: rest => if isSlash kind c then rest else c :: rest
    | [] => []
  ((pushAll kind [] (Text.splitAt (isSlash kind) s)).reverse).map String.ofList

/-- The part of a text in front of its query and its fragment. -/
def pathPart (s : List Char) : List Char :=
  s.takeWhile fun c => c != '?' && c != '#'

/-- The URL of a scheme, with the rest of its text from the path on. -/
def withPath (scheme : String) (kind : Kind) (always : Bool) (s : List Char) : Url :=
  let path := pathPart s
  if path.isEmpty && !always then ⟨scheme, ""⟩
  else ⟨scheme, "/" ++ Text.join "/" (pathSegments kind path)⟩

/-! ## Authorities -/

/-- The host in an authority without user information, and what stands behind the colon that
ends it; a colon in brackets does not. -/
def hostAndNumber : List Char → Bool → List Char → List Char × Option (List Char)
  | acc, _, [] => (acc.reverse, none)
  | acc, inside, c :: s =>
    if c = ':' ∧ !inside then (acc.reverse, some s)
    else hostAndNumber (c :: acc) (if c = '[' then true else if c = ']' then false else inside) s

/-- Whether a text may stand behind a host and a colon: it is empty, or a number of sixteen
bits. -/
def isServiceNumber (s : List Char) : Bool :=
  s.isEmpty || match Numeral.natural? s with
    | some n => n < 65536
    | none => false

/-- The part of an authority behind the last at sign. -/
def withoutUser (authority : List Char) : List Char :=
  (authority.reverse.takeWhile (· != '@')).reverse

/-- Whether a text is an authority. -/
def isAuthority (kind : Kind) (authority : List Char) : Bool :=
  let (host, number) := hostAndNumber [] false (withoutUser authority)
  if host.isEmpty then
    kind == .other && number.isNone && !authority.contains '@'
  else
    (if kind == .other then Host.isOpaqueHost host else Host.isSpecialHost host)
      && isServiceNumber (number.getD [])

/-- Reads a URL from its authority on. -/
def ofAuthority? (scheme : String) (kind : Kind) (s : List Char) : Option Url :=
  let authority := s.takeWhile fun c => !endsAuthority kind c
  if isAuthority kind authority then
    some (withPath scheme kind (kind != .other) (s.dropWhile fun c => !endsAuthority kind c))
  else none

/-- Reads the URL of a file behind two slashes: a host, unless it is empty or a drive letter,
and the path. -/
def ofFileHost? (s : List Char) : Option Url :=
  let host := s.takeWhile fun c => !endsAuthority .file c
  -- a drive letter belongs to the path, although it stands where a host does
  if isDrive host then some (withPath "file" .file true s)
  else if host.isEmpty || Host.isSpecialHost host then
    some (withPath "file" .file true (s.dropWhile fun c => !endsAuthority .file c))
  else none

/-- Reads the URL of a file behind its colon. -/
def ofFile? (s : List Char) : Option Url :=
  match s with
  | a :: b :: rest =>
    if isSlash .file a && isSlash .file b then ofFileHost? rest
    else some (withPath "file" .file true s)
  | _ => some (withPath "file" .file true s)

/-- Reads a URL behind its colon. -/
def ofRest? (scheme : String) (s : List Char) : Option Url :=
  match Kind.ofScheme scheme with
  | .file => ofFile? s
  -- there may be any number of slashes, also none
  | .special => ofAuthority? scheme .special (s.dropWhile (isSlash .special))
  | .other =>
    match s with
    | '/' :: '/' :: rest => ofAuthority? scheme .other rest
    | '/' :: _ => some (withPath scheme .other true s)
    -- a path that does not begin with a slash is taken as it is
    | _ => some ⟨scheme, String.ofList (pathPart s)⟩

/-- Whether a character is dropped at the ends of a URL. -/
def isOuterBlank (c : Char) : Bool :=
  c.toNat ≤ 0x20

/-- Whether a character is dropped inside a URL. -/
def isInnerBlank (c : Char) : Bool :=
  c == '\t' || c == '\n' || c == '\r'

/-- The characters of a URL without those that are dropped. -/
def clean (s : List Char) : List Char :=
  (((s.dropWhile isOuterBlank).reverse.dropWhile isOuterBlank).reverse).filter
    fun c => !isInnerBlank c

/-- Reads a URL. -/
def ofString? (s : String) : Option Url :=
  match scheme? (clean s.toList) with
  | some (scheme, rest) => ofRest? scheme rest
  | none => none

end FleetAgent.Url
