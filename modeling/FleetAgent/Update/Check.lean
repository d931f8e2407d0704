/-
# Looking for updates

The server is asked whether there is an update for the device.  An update that it offers is
downloaded into the folder of packages, under the last name in the path of its address, and
its digest is compared with the offered one.  A download that fails, and a package with
another digest, leave no file behind.
-/
import FleetAgent.Crypto.Sha256
import FleetAgent.Text.Blank
import FleetAgent.Update.Fault
import FleetAgent.Url.Basic

namespace FleetAgent.Update

/-- An update that the server offers: the address of the package, and its digest. -/
structure Offer where
  uri : String
  sha256 : String
deriving DecidableEq, Repr, Inhabited

/-- What an update checker is made for. -/
structure Checker where
  base : String
  device : Device.Identity
  /-- The folder of packages, without links on the way to it. -/
  packageDir : Storage.Path
  /-- How a URL is read. -/
  readUrl : String → Option Url

namespace Checker

/-! ## Asking the server -/

/-- The address of update checks below a base address. -/
def checkUrl (base : String) : String :=
  Server.withoutSlashes base ++ "/api/v1/update/check"

/-- The request of a check, if the token can stand in a header. -/
def checkRequest? (c : Checker) (token : String) : Option Http.Request :=
  if Http.isHeaderValue (Auth.bearer token) then
    some ⟨.post, checkUrl c.base,
      [("Authorization", Auth.bearer token), ("Content-Type", "application/json")],
      Text.Utf8.encode c.device.metadataJson.render⟩
  else none

/-- The offer in an answer. -/
def offered? (r : Http.Response) : Option Offer := do
  match ← Json.fields? ["uri", "sha256"] (← r.body?) with
  | [uri, sha256] => return ⟨← Json.text? uri, ← Json.text? sha256⟩
  | _ => none

/-- What an answer to a check means. -/
def checkOutcome : Http.Reply → Except Fault (Option Offer)
  | .unreachable | .hangUp => .error (.connection .transport)
  | .response r =>
    if r.status = 200 then
      match offered? r with
      | some offer => .ok (some offer)
      | none => .error (.connection .invalidOffer)
    else if r.status = 204 then .ok none
    else if r.status = 400 then .error .missingMetadata
    else if r.status = 401 then .error (.token .unauthorized)
    else .error (.connection (.checkStatus r.status))

/-- A check with the outcome of asking for a token and the reply of the server.  Gives the
result with the requests that the server sees. -/
def check (c : Checker) (token : Except Auth.TokenError String)
    (server : Http.Request → Http.Reply) : Except Fault (Option Offer) × List Http.Request :=
  match token with
  | .error e => (.error (.token e), [])
  | .ok token =>
    match c.checkRequest? token with
    | none => (.error (.connection .transport), [])
    | some request =>
      let reply := server request
      (checkOutcome reply, (reply.seen request).toList)

/-! ## Downloading -/

/-- The name of the package at an address. -/
def packageName? (c : Checker) (uri : String) : Option String :=
  (c.readUrl uri).bind Url.fileName?

/-- The request of a download, if the scheme of its address is one that is spoken. -/
def downloadRequest? (c : Checker) (uri : String) : Option Http.Request :=
  match c.readUrl uri with
  | some u =>
    if u.scheme = "http" ∨ u.scheme = "https" then some ⟨.get, uri, [], []⟩ else none
  | none => none

/-- Removes the file at a path, or the link there but not what it leads to; a folder stays. -/
def discard (folder : Storage.Folder) (p : Storage.Path) : Storage.Folder :=
  match folder.get? p with
  | some .folder => folder
  | _ => folder.remove p

/-- Makes the folder of packages, if there is nothing else in its place. -/
def preparePackageDir (c : Checker) (folder : Storage.Folder) :
    Except Storage.Fault Storage.Folder :=
  if folder.isFolder c.packageDir then .ok folder
  else match folder.get? c.packageDir with
    | some _ => .error .alreadyExists
    | none => .ok (folder.put c.packageDir .folder)

/-- Writes the chunks of a body to a file, one after another. -/
def writeChunks (folder : Storage.Folder) (p : Storage.Path) (chunks : List (List UInt8)) :
    Storage.Folder :=
  chunks.foldl (fun f chunk => f.put p (.file ((f.content? p).getD [] ++ chunk)))
    (folder.put p (.file []))

/-- Writes an answer to the file at a path. -/
def receive (folder : Storage.Folder) (p : Storage.Path) :
    Http.Reply → Except Fault Unit × Storage.Folder
  | .unreachable | .hangUp => (.error (.connection .transport), folder)
  | .response r =>
    if !Http.isSuccess r.status then (.error (.connection (.downloadStatus r.status)), folder)
    else
      match folder.create p with
      | .error e => (.error (.io e), folder)
      | .ok file =>
        let written := writeChunks folder file r.chunks
        if r.complete then (.ok (), written) else (.error (.connection .transport), written)

/-- Downloads the package at an address to a file; a failure leaves no file there. -/
def fetchTo (c : Checker) (folder : Storage.Folder) (p : Storage.Path) (uri : String)
    (server : Http.Request → Http.Reply) :
    (Except Fault Unit × Storage.Folder) × List Http.Request :=
  match c.downloadRequest? uri with
  | none => ((.error (.connection .transport), discard folder p), [])
  | some request =>
    let reply := server request
    match receive folder p reply with
    | (.ok _, folder) => ((.ok (), folder), (reply.seen request).toList)
    -- also a file that was there before is removed
    | (.error e, folder) => ((.error e, discard folder p), (reply.seen request).toList)

/-- Text with its ASCII letters in lower case. -/
def lowercase (s : String) : String :=
  String.ofList (s.toList.map Char.toLower)

/-- Whether a digest is the one that an offer names, without regard to case and to blanks
around it. -/
def matchesDigest (expected actual : String) : Bool :=
  lowercase actual == lowercase (Text.trim expected)

/-- Compares the digest of a downloaded file with that of its offer; a file with another
digest is removed. -/
def verify (folder : Storage.Folder) (p : Storage.Path) (expected : String) :
    Except Fault Storage.Path × Storage.Folder :=
  match folder.contentAt p with
  | .error e => (.error (.io e), folder)
  | .ok content =>
    let actual := Crypto.Sha256.hexDigest content
    if matchesDigest expected actual then (.ok p, folder)
    else (.error (.checksumMismatch expected actual), discard folder p)

/-- The result of a download: the path of the package or why there is none, the folder
afterwards, and the requests that the server has seen. -/
structure Downloaded where
  result : Except Fault Storage.Path
  folder : Storage.Folder
  requests : List Http.Request

/-- Downloads an offered package. -/
def download (c : Checker) (folder : Storage.Folder) (offer : Offer)
    (server : Http.Request → Http.Reply) : Downloaded :=
  match c.packageName? offer.uri with
  | none => ⟨.error (.connection (.noPackageName offer.uri)), folder, []⟩
  | some name =>
    match c.preparePackageDir folder with
    | .error e => ⟨.error (.io e), folder, []⟩
    | .ok prepared =>
      let path := c.packageDir ++ [name]
      match c.fetchTo prepared path offer.uri server with
      | ((.error e, folder), requests) => ⟨.error e, folder, requests⟩
      | ((.ok _, folder), requests) =>
        let (result, folder) := verify folder path offer.sha256
        ⟨result, folder, requests⟩

/-- The result of looking for an update and downloading it. -/
structure Fetched where
  result : Except Fault (Option Storage.Path)
  folder : Storage.Folder
  requests : List Http.Request

/-- Asks the server for an update and downloads it. -/
def fetchUpdate (c : Checker) (folder : Storage.Folder)
    (token : Except Auth.TokenError String) (server : Http.Request → Http.Reply) : Fetched :=
  match c.check token server with
  | (.error e, requests) => ⟨.error e, folder, requests⟩
  | (.ok none, requests) => ⟨.ok none, folder, requests⟩
  | (.ok (some offer), requests) =>
    let d := c.download folder offer server
    ⟨d.result.map some, d.folder, requests ++ d.requests⟩

end Checker

end FleetAgent.Update
