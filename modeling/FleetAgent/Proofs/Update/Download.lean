/-
# What looking for an update comes to

An update is found when the server offers one and delivers a whole body with the offered digest;
then the body stands in the folder of packages (`fetchUpdate_spec`).  Otherwise nothing stands
at the path of the package, whatever was there before and however much of the body has arrived,
and nothing is changed before that path is known.

What is an offer, a name or a digest is said apart from the code: an offer is a record in the body
of an answer (`Offer.IsIn`), a name is the last one in the path of a URL (`Url.Names`), and a digest
is compared up to case and the blanks around it (`Offer.Matches`).  How URLs are read is left open.

The parts follow the stages: what a check comes to (`check_eq_some_iff`, `check_eq_none_iff`), what
is written of an answer (`fetchTo_of_delivers`, `fetchTo_of_not_delivers`), and the digest
(`matchesDigest_iff`).  A file that cannot be made, or a folder in its place, is no concern here:
the operations on files are taken to succeed (`FilesWork`).
-/
import FleetAgent.Proofs.Json.Record
import FleetAgent.Proofs.Storage.Folder
import FleetAgent.Proofs.Text.Case
import FleetAgent.Proofs.Url.Path
import FleetAgent.Update.Check
import FleetAgent.Update.Coordinator
import FleetAgent.Url.Reader

namespace FleetAgent.Update

open Storage (Path Folder)

/-- An offer names the digest of a body: between blanks, and up to the case of its letters. -/
def Offer.Matches (offer : Offer) (body : List UInt8) : Prop :=
  ∃ front digest behind, offer.sha256.toList = front ++ digest ++ behind ∧
    (∀ c ∈ front ++ behind, Text.isBlank c = true) ∧
      Text.SameUpToCase (Crypto.Sha256.hexDigest body).toList digest

/-- The body of an answer is a record with an address and a digest, both of them texts, and whatever
else. -/
def Offer.IsIn (offer : Offer) (body : List UInt8) : Prop :=
  ∃ uri sha256, Json.HasFields ["uri", "sha256"] body [[.text uri], [.text sha256]] ∧
    Json.Spells uri offer.uri ∧ Json.Spells sha256 offer.sha256

namespace Checker

/-! ## Digests -/

/-- Digests are written without blanks. -/
lemma not_isBlank_of_mem_hexDigest (body : List UInt8) :
    ∀ c ∈ (Crypto.Sha256.hexDigest body).toList, Text.isBlank c = false := by
  have hdigit : ∀ n < 16, Text.isBlank (Text.Hex.digit n) = false := by decide
  intro c hc
  rw [Crypto.Sha256.hexDigest, Text.Hex.encode, String.toList_ofList, List.mem_flatMap] at hc
  obtain ⟨b, -, hb⟩ := hc
  have hlt := b.toNat_lt
  rcases List.mem_pair.mp hb with rfl | rfl
  · exact hdigit _ (by omega)
  · exact hdigit _ (by omega)

/-- The digest of a body is compared with the offered one as it should be. -/
lemma matchesDigest_iff {offer : Offer} {body : List UInt8} :
    matchesDigest offer.sha256 (Crypto.Sha256.hexDigest body) = true ↔ offer.Matches body := by
  rw [matchesDigest, beq_iff_eq, lowercase, lowercase, String.ofList_inj, Text.trim,
    String.toList_ofList, Text.map_toLower_trimChars_eq_iff (not_isBlank_of_mem_hexDigest body)]
  rfl

/-! ## Offers and names -/

/-- The offer in an answer is read from the whole of its body. -/
lemma offered?_eq_some_iff {answer : Http.Response} {offer : Offer} :
    offered? answer = some offer ↔ answer.complete = true ∧ offer.IsIn answer.body := by
  rw [offered?, Http.Response.body?]
  constructor
  · intro h
    obtain ⟨body, hbody, h⟩ := Option.bind_eq_some_iff.mp h
    split_ifs at hbody with hcomplete
    obtain rfl := Option.some.inj hbody
    obtain ⟨values, hvalues, h⟩ := Option.bind_eq_some_iff.mp h
    split at h
    · next uri sha256 =>
      obtain ⟨uriText, huri, h⟩ := Option.bind_eq_some_iff.mp h
      obtain ⟨digestText, hdigest, h⟩ := Option.bind_eq_some_iff.mp h
      obtain rfl := Option.some.inj h
      obtain ⟨w, rfl, hw⟩ := Json.text?_eq_some_iff.mp huri
      obtain ⟨v, rfl, hv⟩ := Json.text?_eq_some_iff.mp hdigest
      exact ⟨hcomplete, w, v, Json.fields?_eq_some_iff.mp hvalues, hw, hv⟩
    · cases h
  · rintro ⟨hcomplete, uri, sha256, hfields, huri, hsha256⟩
    rw [if_pos hcomplete]
    simp [Json.fields?_eq_some_iff.mpr hfields, Json.text?_eq_some_iff.mpr ⟨_, rfl, huri⟩,
      Json.text?_eq_some_iff.mpr ⟨_, rfl, hsha256⟩]

/-- The name of a package is the one in the URL that its address is. -/
lemma packageName?_eq_some_iff {c : Checker} {uri name : String} :
    c.packageName? uri = some name ↔ ∃ u, c.readUrl uri = some u ∧ u.Names name := by
  simp only [packageName?, Option.bind_eq_some_iff, Url.fileName?_eq_some_iff]

/-- A download is requested from an address of the web. -/
lemma downloadRequest?_eq_some_iff {c : Checker} {uri : String} {request : Http.Request} :
    c.downloadRequest? uri = some request ↔ request = ⟨.get, uri, [], []⟩ ∧
      ∃ u, c.readUrl uri = some u ∧ (u.scheme = "http" ∨ u.scheme = "https") := by
  rw [downloadRequest?]
  constructor
  · intro h
    split at h
    · next u hu =>
      split_ifs at h with hscheme
      exact ⟨(Option.some.inj h).symm, u, hu, hscheme⟩
    · cases h
  · rintro ⟨rfl, u, hu, hscheme⟩
    rw [hu]
    exact if_pos hscheme

/-! ## What the server says -/

/-- The answer of the server to a check, for which a token is obtained. -/
def Answers (c : Checker) (token : Except Auth.TokenError String)
    (server : Http.Request → Http.Reply) (answer : Http.Response) : Prop :=
  ∃ text request, token = .ok text ∧ c.checkRequest? text = some request ∧
    server request = .response answer

/-- The server offers an update. -/
def Offers (c : Checker) (token : Except Auth.TokenError String)
    (server : Http.Request → Http.Reply) (offer : Offer) : Prop :=
  ∃ answer, c.Answers token server answer ∧ answer.status = 200 ∧ answer.complete = true ∧
    offer.IsIn answer.body

/-- The server says that there is no update. -/
def OffersNothing (c : Checker) (token : Except Auth.TokenError String)
    (server : Http.Request → Http.Reply) : Prop :=
  ∃ answer, c.Answers token server answer ∧ answer.status = 204

/-- The server offers an update, and its package has a path. -/
def OffersAt (c : Checker) (token : Except Auth.TokenError String)
    (server : Http.Request → Http.Reply) (offer : Offer) (path : Path) : Prop :=
  c.Offers token server offer ∧
    ∃ u name, c.readUrl offer.uri = some u ∧ u.Names name ∧ path = c.packageDir ++ [name]

/-- The server delivers the whole of a body from an address of the web. -/
def Delivers (c : Checker) (server : Http.Request → Http.Reply) (uri : String)
    (body : List UInt8) : Prop :=
  (∃ u, c.readUrl uri = some u ∧ (u.scheme = "http" ∨ u.scheme = "https")) ∧
    ∃ answer, server ⟨.get, uri, [], []⟩ = .response answer ∧
      (200 ≤ answer.status ∧ answer.status ≤ 299) ∧ answer.complete = true ∧ answer.body = body

section

variable {c : Checker} {token : Except Auth.TokenError String}
  {server : Http.Request → Http.Reply}

lemma offersAt_iff {offer : Offer} {path : Path} : c.OffersAt token server offer path ↔
    c.Offers token server offer ∧
      ∃ name, c.packageName? offer.uri = some name ∧ path = c.packageDir ++ [name] := by
  refine and_congr_right fun _ => ?_
  constructor
  · rintro ⟨u, name, hu, hname, rfl⟩
    exact ⟨name, packageName?_eq_some_iff.mpr ⟨u, hu, hname⟩, rfl⟩
  · rintro ⟨name, hname, rfl⟩
    obtain ⟨u, hu, hname⟩ := packageName?_eq_some_iff.mp hname
    exact ⟨u, name, hu, hname, rfl⟩

lemma delivers_iff {uri : String} {body : List UInt8} : c.Delivers server uri body ↔
    ∃ request answer, c.downloadRequest? uri = some request ∧ server request = .response answer ∧
      (200 ≤ answer.status ∧ answer.status ≤ 299) ∧ answer.complete = true ∧
      answer.body = body := by
  constructor
  · rintro ⟨hread, answer, hanswer⟩
    exact ⟨_, answer, downloadRequest?_eq_some_iff.mpr ⟨rfl, hread⟩, hanswer⟩
  · rintro ⟨request, answer, hrequest, hanswer⟩
    obtain ⟨rfl, hread⟩ := downloadRequest?_eq_some_iff.mp hrequest
    exact ⟨hread, answer, hanswer⟩

end

/-- The operations on files succeed: the folder of packages is there or can be made, and a file
can be opened for writing at the path of an offered package. -/
def FilesWork (c : Checker) (folder : Folder) (token : Except Auth.TokenError String)
    (server : Http.Request → Http.Reply) : Prop :=
  ∀ offer path, c.OffersAt token server offer path →
    ∃ prepared file, c.preparePackageDir folder = .ok prepared ∧ prepared.create path = .ok file

/-! ## Checks -/

section

variable {c : Checker} {token : Except Auth.TokenError String}
  {server : Http.Request → Http.Reply}

lemma check_of_token_error {e : Auth.TokenError} (h : token = .error e) :
    c.check token server = (.error (.token e), []) := by
  rw [h]
  rfl

lemma check_eq_of_answers {answer : Http.Response} (h : c.Answers token server answer) :
    (c.check token server).1 = checkOutcome (.response answer) := by
  obtain ⟨text, request, rfl, hrequest, hserver⟩ := h
  simp only [check, hrequest, hserver]

lemma exists_answers_of_check {o : Option Offer} (h : (c.check token server).1 = .ok o) :
    ∃ answer, c.Answers token server answer ∧ checkOutcome (.response answer) = .ok o := by
  cases token with
  | error e => cases h
  | ok text =>
    rw [check] at h
    cases hrequest : c.checkRequest? text with
    | none => simp [hrequest] at h
    | some request =>
      simp only [hrequest] at h
      cases hserver : server request with
      | unreachable => simp [hserver, checkOutcome] at h
      | hangUp => simp [hserver, checkOutcome] at h
      | response answer =>
        rw [hserver] at h
        exact ⟨answer, ⟨text, request, rfl, hrequest, hserver⟩, h⟩

lemma checkOutcome_eq_some_iff {answer : Http.Response} {offer : Offer} :
    checkOutcome (.response answer) = .ok (some offer)
      ↔ answer.status = 200 ∧ offered? answer = some offer := by
  rw [checkOutcome]
  split
  · rename_i hstatus
    cases hoffer : offered? answer <;> simp [hstatus]
  · rename_i hstatus
    simp only [hstatus, false_and, iff_false]
    split
    · simp
    · split
      · simp
      · split <;> simp

lemma checkOutcome_eq_none_iff {answer : Http.Response} :
    checkOutcome (.response answer) = .ok none ↔ answer.status = 204 := by
  rw [checkOutcome]
  split
  · rename_i hstatus
    cases hoffer : offered? answer <;> simp [hstatus]
  · split
    · rename_i hstatus
      simp [hstatus]
    · rename_i hstatus
      simp only [hstatus, iff_false]
      split
      · simp
      · split <;> simp

lemma check_eq_some_iff {offer : Offer} :
    (c.check token server).1 = .ok (some offer) ↔ c.Offers token server offer := by
  constructor
  · intro h
    obtain ⟨answer, hanswer, houtcome⟩ := exists_answers_of_check h
    obtain ⟨hstatus, hoffer⟩ := checkOutcome_eq_some_iff.mp houtcome
    exact ⟨answer, hanswer, hstatus, offered?_eq_some_iff.mp hoffer⟩
  · rintro ⟨answer, hanswer, hstatus, hoffer⟩
    rw [check_eq_of_answers hanswer]
    exact checkOutcome_eq_some_iff.mpr ⟨hstatus, offered?_eq_some_iff.mpr hoffer⟩

lemma check_eq_none_iff :
    (c.check token server).1 = .ok none ↔ c.OffersNothing token server := by
  constructor
  · intro h
    obtain ⟨answer, hanswer, houtcome⟩ := exists_answers_of_check h
    exact ⟨answer, hanswer, checkOutcome_eq_none_iff.mp houtcome⟩
  · rintro ⟨answer, hanswer, hstatus⟩
    rw [check_eq_of_answers hanswer]
    exact checkOutcome_eq_none_iff.mpr hstatus

end

/-! ## Downloads -/

lemma isSuccess_iff {status : Nat} :
    Http.isSuccess status = true ↔ 200 ≤ status ∧ status ≤ 299 := by
  simp [Http.isSuccess]

/-- The chunks of a body are written one after another. -/
lemma writeChunks_eq (folder : Folder) (file : Path) (chunks : List (List UInt8)) :
    writeChunks folder file chunks = folder.put file (.file chunks.flatten) := by
  have happend (written : List UInt8) :
      chunks.foldl (fun f chunk => f.put file (.file ((f.content? file).getD [] ++ chunk)))
        (folder.put file (.file written))
          = folder.put file (.file (written ++ chunks.flatten)) := by
    induction chunks generalizing written with
    | nil => simp
    | cons chunk chunks ih =>
      have hcontent : (folder.put file (.file written)).content? file = some written := by
        simp [Folder.content?, Folder.get?_put]
      rw [List.foldl_cons, hcontent, Folder.put_put, Option.getD_some, ih, List.flatten_cons,
        List.append_assoc]
  exact happend []

/-- After a file is discarded nothing stands at its path. -/
lemma get?_discard {folder : Folder} {path : Path} (h : folder.get? path ≠ some .folder) :
    (discard folder path).get? path = none := by
  rw [discard]
  split
  · rename_i hfolder
    exact absurd hfolder h
  · simp [Folder.get?_remove]

section

variable {c : Checker} {prepared : Folder} {path file : Path}
  {server : Http.Request → Http.Reply}

/-- Where a file can be opened there is no folder. -/
lemma get?_ne_folder_of_create (h : prepared.create path = .ok file) :
    prepared.get? path ≠ some .folder := by
  obtain ⟨hfollow, hadmits⟩ := Folder.admits_of_create h
  intro hfolder
  rw [Folder.follow, hfolder] at hfollow
  cases hfollow
  exact absurd (Folder.isFolder_iff.mpr (.inr (.inl hfolder))) (by simp [hadmits.not_folder])

/-- Where a file has been opened there is no folder afterwards. -/
lemma get?_put_ne_folder (h : prepared.create path = .ok file) (content : List UInt8) :
    (prepared.put file (.file content)).get? path ≠ some .folder := by
  rw [Folder.get?_put]
  split
  · simp
  · exact get?_ne_folder_of_create h

/-- An answer that is not a whole body is not received, and makes no folder. -/
lemma receive_eq_error (h : prepared.create path = .ok file) {reply : Http.Reply}
    (hreply : ∀ answer, reply = .response answer →
      ¬((200 ≤ answer.status ∧ answer.status ≤ 299) ∧ answer.complete = true)) :
    ∃ e left, receive prepared path reply = (.error e, left) ∧
      left.get? path ≠ some .folder := by
  have hkept := get?_ne_folder_of_create h
  cases reply with
  | unreachable => exact ⟨_, prepared, rfl, hkept⟩
  | hangUp => exact ⟨_, prepared, rfl, hkept⟩
  | response answer =>
    cases hsuccess : Http.isSuccess answer.status with
    | false => exact ⟨_, prepared, by simp [receive, hsuccess]; rfl, hkept⟩
    | true =>
      cases hcomplete : answer.complete with
      | true => exact absurd ⟨isSuccess_iff.mp hsuccess, hcomplete⟩ (hreply answer rfl)
      | false =>
        refine ⟨.connection .transport, prepared.put file (.file answer.chunks.flatten), ?_,
          get?_put_ne_folder h _⟩
        simp [receive, hsuccess, hcomplete, h, writeChunks_eq]

/-- A body that is delivered is written. -/
lemma fetchTo_of_delivers (h : prepared.create path = .ok file) {uri : String}
    {body : List UInt8} (hbody : c.Delivers server uri body) :
    (c.fetchTo prepared path uri server).1 = (.ok (), prepared.put file (.file body)) := by
  obtain ⟨request, answer, hrequest, hserver, hstatus, hcomplete, rfl⟩ := delivers_iff.mp hbody
  have hsuccess := isSuccess_iff.mpr hstatus
  simp only [fetchTo, receive, hrequest, hserver, hsuccess, hcomplete, h, writeChunks_eq]
  rfl

/-- What is not delivered is not left behind. -/
lemma fetchTo_of_not_delivers (h : prepared.create path = .ok file) {uri : String}
    (hnone : ∀ body, ¬c.Delivers server uri body) :
    ∃ e, (c.fetchTo prepared path uri server).1.1 = .error e ∧
      (c.fetchTo prepared path uri server).1.2.get? path = none := by
  cases hrequest : c.downloadRequest? uri with
  | none =>
    simp only [fetchTo, hrequest]
    exact ⟨_, rfl, get?_discard (get?_ne_folder_of_create h)⟩
  | some request =>
    have hreply : ∀ answer, server request = .response answer →
        ¬((200 ≤ answer.status ∧ answer.status ≤ 299) ∧ answer.complete = true) := by
      rintro answer hserver ⟨hstatus, hcomplete⟩
      exact hnone _
        (delivers_iff.mpr ⟨request, answer, hrequest, hserver, hstatus, hcomplete, rfl⟩)
    obtain ⟨e, left, hreceive, hleft⟩ := receive_eq_error h hreply
    simp only [fetchTo, hrequest, hreceive]
    exact ⟨e, rfl, get?_discard hleft⟩

/-- A downloaded body with the offered digest is kept. -/
lemma download_of_delivers {folder : Folder} {offer : Offer} {name : String}
    (hname : c.packageName? offer.uri = some name)
    (hprepared : c.preparePackageDir folder = .ok prepared)
    (h : prepared.create (c.packageDir ++ [name]) = .ok file) {body : List UInt8}
    (hbody : c.Delivers server offer.uri body) (hdigest : offer.Matches body) :
    (c.download folder offer server).result = .ok (c.packageDir ++ [name]) ∧
      (c.download folder offer server).folder = prepared.put file (.file body) := by
  have hfetch := fetchTo_of_delivers h hbody
  have hmatches : matchesDigest offer.sha256 (Crypto.Sha256.hexDigest body) = true :=
    matchesDigest_iff.mpr hdigest
  have hverify : verify (prepared.put file (.file body)) (c.packageDir ++ [name]) offer.sha256
      = (.ok (c.packageDir ++ [name]), prepared.put file (.file body)) := by
    simp [verify, Folder.contentAt_put h, hmatches]
  simp only [download, hname, hprepared]
  rcases hresult : c.fetchTo prepared (c.packageDir ++ [name]) offer.uri server
    with ⟨⟨result, left⟩, requests⟩
  rw [hresult] at hfetch
  cases hfetch
  simp [hverify]

/-- Whatever else is downloaded fails, and leaves nothing at its path. -/
lemma download_of_not_delivers {folder : Folder} {offer : Offer} {name : String}
    (hname : c.packageName? offer.uri = some name)
    (hprepared : c.preparePackageDir folder = .ok prepared)
    (h : prepared.create (c.packageDir ++ [name]) = .ok file)
    (hnone : ∀ body, c.Delivers server offer.uri body → ¬offer.Matches body) :
    (∃ e, (c.download folder offer server).result = .error e) ∧
      (c.download folder offer server).folder.get? (c.packageDir ++ [name]) = none := by
  simp only [download, hname, hprepared]
  rcases hresult : c.fetchTo prepared (c.packageDir ++ [name]) offer.uri server
    with ⟨⟨result, left⟩, requests⟩
  by_cases hdelivers : ∃ body, c.Delivers server offer.uri body
  · -- the digest is another one
    obtain ⟨body, hbody⟩ := hdelivers
    have hfetch := fetchTo_of_delivers h hbody
    rw [hresult] at hfetch
    cases hfetch
    have hdiffers : matchesDigest offer.sha256 (Crypto.Sha256.hexDigest body) = false :=
      Bool.eq_false_iff.mpr (mt matchesDigest_iff.mp (hnone body hbody))
    simp only [verify, Folder.contentAt_put h, hdiffers]
    exact ⟨⟨_, rfl⟩, get?_discard (get?_put_ne_folder h _)⟩
  · obtain ⟨e, herror, hleft⟩ :=
      fetchTo_of_not_delivers h fun body hbody => hdelivers ⟨body, hbody⟩
    rw [hresult] at herror hleft
    dsimp only at herror hleft
    rw [herror]
    exact ⟨⟨e, rfl⟩, hleft⟩

end

/-! ## Updates -/

section

variable {c : Checker} {folder : Folder} {token : Except Auth.TokenError String}
  {server : Http.Request → Http.Reply}

/-- The server offers an update, and delivers its package with the offered digest. -/
def Provides (c : Checker) (token : Except Auth.TokenError String)
    (server : Http.Request → Http.Reply) (path : Path) (body : List UInt8) : Prop :=
  ∃ offer, c.OffersAt token server offer path ∧ c.Delivers server offer.uri body ∧
    offer.Matches body

lemma fetchUpdate_of_check_error (folder : Folder) {e : Fault}
    (h : (c.check token server).1 = .error e) :
    (c.fetchUpdate folder token server).result = .error e ∧
      (c.fetchUpdate folder token server).folder = folder := by
  rcases hcheck : c.check token server with ⟨result, requests⟩
  rw [hcheck] at h
  cases h
  simp [fetchUpdate, hcheck]

lemma fetchUpdate_of_check_none (folder : Folder) (h : (c.check token server).1 = .ok none) :
    (c.fetchUpdate folder token server).result = .ok none ∧
      (c.fetchUpdate folder token server).folder = folder := by
  rcases hcheck : c.check token server with ⟨result, requests⟩
  rw [hcheck] at h
  cases h
  simp [fetchUpdate, hcheck]

lemma fetchUpdate_of_check_some (folder : Folder) {offer : Offer}
    (h : (c.check token server).1 = .ok (some offer)) :
    (c.fetchUpdate folder token server).result
        = (c.download folder offer server).result.map some ∧
      (c.fetchUpdate folder token server).folder = (c.download folder offer server).folder := by
  rcases hcheck : c.check token server with ⟨result, requests⟩
  rw [hcheck] at h
  cases h
  simp [fetchUpdate, hcheck]

/-- There is at most one offer, with one path. -/
lemma offersAt_unique {offer other : Offer} {path otherPath : Path}
    (h : c.OffersAt token server offer path) (hother : c.OffersAt token server other otherPath) :
    other = offer ∧ otherPath = path := by
  obtain ⟨hoffer, name, hname, rfl⟩ := offersAt_iff.mp h
  obtain ⟨hotherOffer, otherName, hotherName, rfl⟩ := offersAt_iff.mp hother
  have hsame := (check_eq_some_iff.mpr hotherOffer).symm.trans (check_eq_some_iff.mpr hoffer)
  cases hsame
  cases hotherName.symm.trans hname
  exact ⟨rfl, rfl⟩

lemma delivers_unique {uri : String} {body other : List UInt8} (h : c.Delivers server uri body)
    (hother : c.Delivers server uri other) : other = body := by
  obtain ⟨-, answer, hserver, -, -, rfl⟩ := h
  obtain ⟨-, otherAnswer, hotherServer, -, -, rfl⟩ := hother
  cases hotherServer.symm.trans hserver
  rfl

lemma not_offersNothing_of_offersAt {offer : Offer} {path : Path}
    (h : c.OffersAt token server offer path) : ¬c.OffersNothing token server := by
  intro hnothing
  cases (check_eq_some_iff.mpr h.1).symm.trans (check_eq_none_iff.mpr hnothing)

/-- What an update comes to: it is provided and stands at its path, there is none, the search
for it fails before a path is known, or it is not provided and nothing stands at its path. -/
inductive Outcome (c : Checker) (folder : Folder) (token : Except Auth.TokenError String)
    (server : Http.Request → Http.Reply) (fetched : Fetched) : Prop where
  | provided (path : Path) (body : List UInt8) (h : c.Provides token server path body)
      (hresult : fetched.result = .ok (some path))
      (hcontent : fetched.folder.contentAt path = .ok body)
  | nothing (h : c.OffersNothing token server) (hresult : fetched.result = .ok none)
      (hfolder : fetched.folder = folder)
  | failed (e : Fault) (h : ∀ offer path, ¬c.OffersAt token server offer path)
      (hnothing : ¬c.OffersNothing token server) (hresult : fetched.result = .error e)
      (hfolder : fetched.folder = folder)
  | discarded (e : Fault) (offer : Offer) (path : Path) (h : c.OffersAt token server offer path)
      (hnot : ∀ body, c.Delivers server offer.uri body → ¬offer.Matches body)
      (hresult : fetched.result = .error e) (hgone : fetched.folder.get? path = none)

/-- Looking for an update comes to one of these. -/
lemma fetchUpdate_outcome (hfiles : c.FilesWork folder token server) :
    Outcome c folder token server (c.fetchUpdate folder token server) := by
  -- a path is known in the last case only
  rcases hcheck : (c.check token server).1 with e | _ | offer
  · obtain ⟨hresult, hfolder⟩ := fetchUpdate_of_check_error folder hcheck
    refine .failed e ?_ ?_ hresult hfolder
    · rintro offer path ⟨hoffer, -⟩
      cases hcheck.symm.trans (check_eq_some_iff.mpr hoffer)
    · intro hnothing
      cases hcheck.symm.trans (check_eq_none_iff.mpr hnothing)
  · obtain ⟨hresult, hfolder⟩ := fetchUpdate_of_check_none folder hcheck
    exact .nothing (check_eq_none_iff.mp hcheck) hresult hfolder
  · obtain ⟨hresult, hfolder⟩ := fetchUpdate_of_check_some folder hcheck
    have hoffer := check_eq_some_iff.mp hcheck
    cases hname : c.packageName? offer.uri with
    | none =>
      simp only [download, hname] at hresult hfolder
      refine .failed _ ?_ ?_ hresult hfolder
      · intro other path hpath
        obtain ⟨hother, name, hotherName, -⟩ := offersAt_iff.mp hpath
        cases hcheck.symm.trans (check_eq_some_iff.mpr hother)
        cases hname.symm.trans hotherName
      · intro hnothing
        cases hcheck.symm.trans (check_eq_none_iff.mpr hnothing)
    | some name =>
      have hpath : c.OffersAt token server offer (c.packageDir ++ [name]) :=
        offersAt_iff.mpr ⟨hoffer, name, hname, rfl⟩
      obtain ⟨prepared, file, hprepared, hcreate⟩ := hfiles offer _ hpath
      by_cases hprovided : ∃ body, c.Delivers server offer.uri body ∧ offer.Matches body
      · obtain ⟨body, hbody, hdigest⟩ := hprovided
        obtain ⟨hdownload, hleft⟩ := download_of_delivers hname hprepared hcreate hbody hdigest
        refine .provided _ body ⟨offer, hpath, hbody, hdigest⟩ ?_ ?_
        · rw [hresult, hdownload]
          rfl
        · rw [hfolder, hleft]
          exact Folder.contentAt_put hcreate body
      · have hnot : ∀ body, c.Delivers server offer.uri body → ¬offer.Matches body :=
          fun body hbody hdigest => hprovided ⟨body, hbody, hdigest⟩
        obtain ⟨⟨e, herror⟩, hgone⟩ :=
          download_of_not_delivers hname hprepared hcreate hnot
        refine .discarded e offer _ hpath hnot ?_ ?_
        · rw [hresult, herror]
          rfl
        · rw [hfolder]
          exact hgone

namespace Outcome

variable {fetched : Fetched}

lemma ok_some_iff (h : Outcome c folder token server fetched) (path : Path) :
    fetched.result = .ok (some path) ↔ ∃ body, c.Provides token server path body := by
  constructor
  · intro hresult
    cases h with
    | provided other body hprovides hother hcontent =>
      cases hother.symm.trans hresult
      exact ⟨body, hprovides⟩
    | nothing hnothing hother => cases hother.symm.trans hresult
    | failed e hno hnothing hother => cases hother.symm.trans hresult
    | discarded e offer other hoffer hnot hother => cases hother.symm.trans hresult
  · rintro ⟨body, offer, hoffer, hbody, hdigest⟩
    cases h with
    | provided other otherBody hprovides hresult hcontent =>
      obtain ⟨otherOffer, hother, -⟩ := hprovides
      rw [hresult, (offersAt_unique hoffer hother).2]
    | nothing hnothing hresult => exact absurd hnothing (not_offersNothing_of_offersAt hoffer)
    | failed e hno hnothing hresult => exact absurd hoffer (hno offer path)
    | discarded e other otherPath hother hnot hresult =>
      obtain ⟨rfl, -⟩ := offersAt_unique hoffer hother
      exact absurd hdigest (hnot body hbody)

lemma contentAt_eq (h : Outcome c folder token server fetched) {path : Path} {body : List UInt8}
    (hprovides : c.Provides token server path body) : fetched.folder.contentAt path = .ok body := by
  have hresult := (h.ok_some_iff path).mpr ⟨body, hprovides⟩
  cases h with
  | provided other otherBody hother hsame hcontent =>
    cases hsame.symm.trans hresult
    obtain ⟨offer, hoffer, hbody, -⟩ := hprovides
    obtain ⟨otherOffer, hotherOffer, hotherBody, -⟩ := hother
    obtain ⟨rfl, -⟩ := offersAt_unique hoffer hotherOffer
    rw [hcontent, delivers_unique hbody hotherBody]
  | nothing hnothing hother => cases hother.symm.trans hresult
  | failed e hno hnothing hother => cases hother.symm.trans hresult
  | discarded e offer other hoffer hnot hother => cases hother.symm.trans hresult

lemma ok_none_iff (h : Outcome c folder token server fetched) :
    fetched.result = .ok none ↔ c.OffersNothing token server := by
  cases h with
  | provided path body hprovides hresult hcontent =>
    obtain ⟨offer, hoffer, -⟩ := hprovides
    simp [hresult, not_offersNothing_of_offersAt hoffer]
  | nothing hnothing hresult => simp [hresult, hnothing]
  | failed e hno hnothing hresult => simp [hresult, hnothing]
  | discarded e offer path hoffer hnot hresult =>
    simp [hresult, not_offersNothing_of_offersAt hoffer]

lemma get?_eq_none (h : Outcome c folder token server fetched) {e : Fault}
    (herror : fetched.result = .error e) {offer : Offer} {path : Path}
    (hoffer : c.OffersAt token server offer path) : fetched.folder.get? path = none := by
  cases h with
  | provided other body hprovides hresult => cases hresult.symm.trans herror
  | nothing hnothing hresult => cases hresult.symm.trans herror
  | failed e hno hnothing hresult => exact absurd hoffer (hno offer path)
  | discarded e other otherPath hother hnot hresult hgone =>
    rw [← (offersAt_unique hoffer hother).2]
    exact hgone

lemma folder_eq (h : Outcome c folder token server fetched)
    (hno : ∀ offer path, ¬c.OffersAt token server offer path) : fetched.folder = folder := by
  cases h with
  | provided path body hprovides hresult =>
    obtain ⟨offer, hoffer, -⟩ := hprovides
    exact absurd hoffer (hno offer path)
  | nothing hnothing hresult hfolder => exact hfolder
  | failed e hno hnothing hresult hfolder => exact hfolder
  | discarded e offer path hoffer => exact absurd hoffer (hno offer path)

end Outcome

lemma requests_of_token_error {e : Auth.TokenError} (h : token = .error e) :
    (c.fetchUpdate folder token server).requests = [] := by
  rw [fetchUpdate, check_of_token_error h]

/-- The answer of a checker to a check of the coordinator. -/
def Fetched.answer (fetched : Fetched) : Except Fault (Option String) :=
  fetched.result.map (Option.map fetched.folder.pathText)

/-- A check of the coordinator goes on with the package that a checker has found, or returns. -/
lemma step_fetched (fetched : Fetched) (s : Coordinator.State) (a : Coordinator.Attempt)
    (ha : s.attempt? a.id = some a) (hphase : a.phase = .fetching) :
    (∃ path, fetched.result = .ok (some path) ∧
        Coordinator.step s (.fetched a.id fetched.answer)
          = (s.advance a.id (.extracting (fetched.folder.pathText path)), [])) ∨
      ((∀ path, fetched.result ≠ .ok (some path)) ∧ ∃ result,
        Coordinator.step s (.fetched a.id fetched.answer)
          = (s.finish a.id, [.checked a.id result])) := by
  obtain ⟨id, isCheck, phase⟩ := a
  cases hphase
  rcases hresult : fetched.result with e | _ | path
  · exact .inr ⟨by simp, .error e, by
      simp [Coordinator.step, ha, Coordinator.onFetched, Fetched.answer, hresult, Except.map]⟩
  · exact .inr ⟨by simp, .ok .noUpdate, by
      simp [Coordinator.step, ha, Coordinator.onFetched, Fetched.answer, hresult, Except.map]⟩
  · exact .inl ⟨path, rfl, by
      simp [Coordinator.step, ha, Coordinator.onFetched, Fetched.answer, hresult, Except.map]⟩

/-- **Updates.**  Let the operations on files succeed.  A package is found exactly when a token
is obtained, the server offers an update from whose address a name can be taken, and it
delivers a whole body with the offered digest; then the file at the path of the package holds
that body.  That there is no update is the result exactly when a token is obtained and the
server says so.  A failure leaves nothing at the path of an offered package; where there is no
such path, and where there is no update, the folder is as it was.  Without a token nothing is
requested.  So a check of the coordinator looks for a payload in a package that has been
verified, or returns without any. -/
theorem fetchUpdate_spec (hfiles : c.FilesWork folder token server) :
    let fetched := c.fetchUpdate folder token server
    (∀ path, fetched.result = .ok (some path) ↔ ∃ body, c.Provides token server path body) ∧
      (∀ path body, c.Provides token server path body →
        fetched.folder.contentAt path = .ok body) ∧
      (fetched.result = .ok none ↔ c.OffersNothing token server) ∧
      (∀ e, fetched.result = .error e →
        (∀ offer path, c.OffersAt token server offer path → fetched.folder.get? path = none) ∧
          ((∀ offer path, ¬c.OffersAt token server offer path) → fetched.folder = folder)) ∧
      (fetched.result = .ok none → fetched.folder = folder) ∧
      (∀ e, token = .error e → fetched.requests = []) ∧
      ∀ (s : Coordinator.State) (a : Coordinator.Attempt),
        s.attempt? a.id = some a → a.phase = .fetching →
        (∃ path body, c.Provides token server path body ∧
            Coordinator.step s (.fetched a.id fetched.answer)
              = (s.advance a.id (.extracting (fetched.folder.pathText path)), [])) ∨
          ((∀ path body, ¬c.Provides token server path body) ∧ ∃ result,
            Coordinator.step s (.fetched a.id fetched.answer)
              = (s.finish a.id, [.checked a.id result])) := by
  have houtcome := fetchUpdate_outcome hfiles
  refine ⟨houtcome.ok_some_iff, fun path body => houtcome.contentAt_eq, houtcome.ok_none_iff,
    fun e herror => ⟨fun offer path => houtcome.get?_eq_none herror, houtcome.folder_eq⟩,
    fun hnone => ?_, fun e => requests_of_token_error, fun s a ha hphase => ?_⟩
  · refine houtcome.folder_eq fun offer path hoffer => ?_
    exact not_offersNothing_of_offersAt hoffer (houtcome.ok_none_iff.mp hnone)
  · rcases step_fetched _ s a ha hphase with ⟨path, hresult, hstep⟩ | ⟨hnone, hstep⟩
    · obtain ⟨body, hprovides⟩ := (houtcome.ok_some_iff path).mp hresult
      exact .inl ⟨path, body, hprovides, hstep⟩
    · exact .inr ⟨fun path body hprovides =>
        hnone path ((houtcome.ok_some_iff path).mpr ⟨body, hprovides⟩), hstep⟩

end

/-- A checker with a folder of packages. -/
def sampleChecker : Checker :=
  ⟨"http://a", ⟨"02:00:00:AA:BB:CC", "board", "1.0"⟩, ["packages"], Url.ofString?⟩

/-- An offer of a package of three bytes, with its digest in capital letters and between blanks. -/
def sampleOffer : Offer :=
  ⟨"http://a/ota.zip", " 039058C6F2C0CB492C533B0A4D14EF77CC0F78ABCCCED5287D84A1A2011CFB81\n"⟩

/-- A server that offers a package, together with a number that nothing can hold, and delivers it
in two chunks. -/
def sampleServer (request : Http.Request) : Http.Reply :=
  match request.method with
  | .post =>
    .response ⟨200, [Text.Utf8.encode "\x7b\"size\":1e999,\"uri\":\"http://a/ota.zip\",",
      Text.Utf8.encode "\"sha256\":\" 039058C6F2C0CB492C533B0A4D14EF77",
      Text.Utf8.encode "CC0F78ABCCCED5287D84A1A2011CFB81\\n\"\x7d"], true⟩
  | .get => .response ⟨200, [[1], [2, 3]], true⟩

lemma offersAt_sample :
    sampleChecker.OffersAt (.ok "token") sampleServer sampleOffer ["packages", "ota.zip"] :=
  offersAt_iff.mpr
    ⟨check_eq_some_iff.mp (by decide +kernel), "ota.zip", by decide +kernel, rfl⟩

lemma provides_sample :
    sampleChecker.Provides (.ok "token") sampleServer ["packages", "ota.zip"] [1, 2, 3] := by
  have hrequest : sampleChecker.downloadRequest? sampleOffer.uri
      = some ⟨.get, "http://a/ota.zip", [], []⟩ := by
    decide +kernel
  have hmatches : sampleOffer.Matches [1, 2, 3] := matchesDigest_iff.mp (by decide +kernel)
  have hdelivers : sampleChecker.Delivers sampleServer sampleOffer.uri [1, 2, 3] :=
    delivers_iff.mpr ⟨_, ⟨200, [[1], [2, 3]], true⟩, hrequest, rfl, by decide, rfl, rfl⟩
  exact ⟨sampleOffer, offersAt_sample, hdelivers, hmatches⟩

/-- The sample package is found, and is written to a folder that is made for it. -/
theorem fetchUpdate_sample :
    sampleChecker.FilesWork (.empty "/data") (.ok "token") sampleServer ∧
      (sampleChecker.fetchUpdate (.empty "/data") (.ok "token") sampleServer).result
        = .ok (some ["packages", "ota.zip"]) ∧
      (sampleChecker.fetchUpdate (.empty "/data") (.ok "token") sampleServer).folder.contentAt
        ["packages", "ota.zip"] = .ok [1, 2, 3] := by
  have hfiles : sampleChecker.FilesWork (.empty "/data") (.ok "token") sampleServer := by
    intro offer path hpath
    obtain ⟨rfl, rfl⟩ := offersAt_unique offersAt_sample hpath
    exact ⟨_, ["packages", "ota.zip"], rfl, by decide +kernel⟩
  obtain ⟨hfound, hcontent, -⟩ := fetchUpdate_spec hfiles
  exact ⟨hfiles, (hfound _).mpr ⟨_, provides_sample⟩, hcontent _ _ provides_sample⟩

end Checker

end FleetAgent.Update
