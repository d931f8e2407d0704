/-
# The key of a device

The device proves its identity by signatures.  Its key is kept in a file that only its owner
may read; where there is no such file yet, a new key is made and written.
-/
import FleetAgent.Crypto.Rsa
import FleetAgent.Storage.Folder
import FleetAgent.Text.Utf8

namespace FleetAgent.Device

/-- Why a key cannot be used. -/
inductive KeyError where
  | io (f : Storage.Fault)
  | generate (text : String)
  | encoding
  | sign (text : String)
deriving DecidableEq, Repr, Inhabited

/-- The text of a key error. -/
def KeyError.message : KeyError → String
  | io f => "key store I/O error: " ++ f.name
  | generate text => "key generation failed: " ++ text
  | encoding => "invalid key encoding"
  | sign text => "signing failed: " ++ text

/-- A key: its public half as a document, and the signatures that it makes. -/
structure Key where
  publicPem : Except KeyError String
  sign : List UInt8 → Except KeyError (List UInt8)

/-- The key that an RSA private key is. -/
def Key.ofRsa (k : Crypto.Rsa.PrivateKey) : Key where
  publicPem := .ok k.publicPem
  sign := fun message =>
    match k.sign? message with
    | some signature => .ok signature
    | none => .error (.sign "signature error: message too long")

namespace KeyStore

/-- The permissions of the file of a key, in octal digits. -/
def fileMode : String := "600"

/-- The key in the content of a file. -/
def ofContent (content : List UInt8) : Except KeyError Crypto.Rsa.PrivateKey :=
  match Text.Utf8.decode? content with
  | none => .error (.io .invalidData)
  | some text =>
    match Crypto.Rsa.PrivateKey.ofPem? text with
    | some k => .ok k
    | none => .error .encoding

/-- Why no file can be made under the names of a path: there is no name, or something on the
way is a file. -/
def obstacle? (folder : Storage.Folder) (names : Storage.Path) : Option Storage.Fault :=
  if names.isEmpty then some .notFound
  else if (folder.content? names.dropLast).isSome then some .alreadyExists
  else if (List.range names.length).any fun n => (folder.content? (names.take n)).isSome then
    some .notADirectory
  else none

/-- Keeps a new key in a file, with the folders on the way to it.  A path that leads out of
the folder leaves the folder as it is. -/
def keep (folder : Storage.Folder) (path : String) (k : Crypto.Rsa.PrivateKey) :
    Except KeyError Storage.Folder :=
  match folder.relative? path with
  | none => .ok folder
  | some path =>
    let names := (Storage.Folder.components path).filter fun n => n != "" && n != "."
    match obstacle? folder names with
    | some f => .error (.io f)
    | none => .ok (folder.put names (.file (Text.Utf8.encode k.toPem)))

/-- The key in the file at a path; a new one of `bits` bits if there is no such file, which
is then in the folder too.  `random` is what a new key is made from. -/
def load (folder : Storage.Folder) (path : String) (bits : Nat) (random : List Nat) :
    Except KeyError Crypto.Rsa.PrivateKey × Storage.Folder :=
  match folder.resolve path with
  | .ok _ =>
    match folder.read path with
    | .ok content => (ofContent content, folder)
    | .error f => (.error (.io f), folder)
  | .error _ =>
    match Crypto.Rsa.generate bits random with
    | .error e => (.error (.generate e.message), folder)
    | .ok k =>
      match keep folder path k with
      | .ok folder => (.ok k, folder)
      | .error e => (.error e, folder)

end KeyStore

end FleetAgent.Device
