/-
# Requests and answers

What the agent asks of a server, and how that ends: with an answer, or without one.  An
answer is the last one after redirections.  Its body arrives in chunks and may break off.
-/
namespace FleetAgent.Http

/-- The methods that the agent uses. -/
inductive Method where
  | get
  | post
deriving DecidableEq, Repr, Inhabited

/-- The name of a method. -/
def Method.name : Method → String
  | get => "GET"
  | post => "POST"

/-- A request. -/
structure Request where
  method : Method
  url : String
  headers : List (String × String)
  body : List UInt8
deriving DecidableEq, Repr, Inhabited

/-- The value of a header. -/
def Request.header? (r : Request) (name : String) : Option String :=
  List.lookup name r.headers

/-- An answer: its status, the chunks of its body that arrive, and whether they are the whole
body. -/
structure Response where
  status : Nat
  chunks : List (List UInt8)
  complete : Bool
deriving DecidableEq, Repr, Inhabited

/-- The bytes of the body that arrive. -/
def Response.body (r : Response) : List UInt8 :=
  r.chunks.flatten

/-- The whole body, if it arrives. -/
def Response.body? (r : Response) : Option (List UInt8) :=
  if r.complete then some r.body else none

/-- Whether a status means success. -/
def isSuccess (status : Nat) : Bool :=
  200 ≤ status && status ≤ 299

/-- How a request ends. -/
inductive Reply where
  /-- No connection comes about, so the request is never seen. -/
  | unreachable
  /-- The request is seen, but there is no answer. -/
  | hangUp
  | response (r : Response)
deriving DecidableEq, Repr, Inhabited

/-- The request, if the server has seen it. -/
def Reply.seen (reply : Reply) (r : Request) : Option Request :=
  match reply with
  | unreachable => none
  | _ => some r

/-- Whether a text may be the value of a header: a tab is the only control character in
it. -/
def isHeaderValue (s : String) : Bool :=
  s.toList.all fun c => c == '\t' || (0x20 ≤ c.toNat && c.toNat != 0x7F)

/-- The reason phrases of the registered statuses. -/
def reasons : List (Nat × String) :=
  [(100, "Continue"), (101, "Switching Protocols"), (102, "Processing"), (200, "OK"),
    (201, "Created"), (202, "Accepted"), (203, "Non Authoritative Information"),
    (204, "No Content"), (205, "Reset Content"), (206, "Partial Content"),
    (207, "Multi-Status"), (208, "Already Reported"), (226, "IM Used"),
    (300, "Multiple Choices"), (301, "Moved Permanently"), (302, "Found"), (303, "See Other"),
    (304, "Not Modified"), (305, "Use Proxy"), (307, "Temporary Redirect"),
    (308, "Permanent Redirect"), (400, "Bad Request"), (401, "Unauthorized"),
    (402, "Payment Required"), (403, "Forbidden"), (404, "Not Found"),
    (405, "Method Not Allowed"), (406, "Not Acceptable"),
    (407, "Proxy Authentication Required"), (408, "Request Timeout"), (409, "Conflict"),
    (410, "Gone"), (411, "Length Required"), (412, "Precondition Failed"),
    (413, "Payload Too Large"), (414, "URI Too Long"), (415, "Unsupported Media Type"),
    (416, "Range Not Satisfiable"), (417, "Expectation Failed"), (418, "I'm a teapot"),
    (421, "Misdirected Request"), (422, "Unprocessable Entity"), (423, "Locked"),
    (424, "Failed Dependency"), (425, "Too Early"), (426, "Upgrade Required"),
    (428, "Precondition Required"), (429, "Too Many Requests"),
    (431, "Request Header Fields Too Large"), (451, "Unavailable For Legal Reasons"),
    (500, "Internal Server Error"), (501, "Not Implemented"), (502, "Bad Gateway"),
    (503, "Service Unavailable"), (504, "Gateway Timeout"),
    (505, "HTTP Version Not Supported"), (506, "Variant Also Negotiates"),
    (507, "Insufficient Storage"), (508, "Loop Detected"), (510, "Not Extended"),
    (511, "Network Authentication Required")]

/-- The text of a status: its number and its reason phrase. -/
def statusText (status : Nat) : String :=
  toString status ++ " " ++ (List.lookup status reasons).getD "<unknown status code>"

end FleetAgent.Http
