/-
# The two base addresses of a server

Both base addresses are read off the configured text without the blanks around it and the slashes
at its end (`bareText`).  A text in which `://` occurs is cut at the first occurrence (`Splits`),
and what stands in front of it names the transport; where it does not occur the transport is secure.

So the two addresses are refused for the same texts and for the same reason, and otherwise they
differ in the name of one transport only (`bases_agree`).
-/
import FleetAgent.Server.Address
import FleetAgent.Proofs.Text.Pieces

namespace FleetAgent.Server

variable {server scheme rest : String}

/-- The configured text without the blanks around it and the slashes at its end. -/
def bareText (server : String) : String := withoutSlashes (Text.trim server)

/-- What stands between the scheme of an address and the rest. -/
def mark : List Char := [':', '/', '/']

/-- A text consists of a scheme, the first mark that occurs in it, and the rest. -/
def Splits (text scheme rest : String) : Prop :=
  text = scheme ++ "://" ++ rest ∧ ¬mark <:+: scheme.toList

/-! ## Cutting -/

lemma cut?_eq_some_iff {s a b : List Char} :
    Text.cut? mark s = some (a, b) ↔ s = a ++ mark ++ b ∧ ¬mark <:+: a := by
  constructor
  · exact Text.cut?_eq_some (by simp [mark])
  · rintro ⟨rfl, h⟩
    exact Text.cut?_append_of_head (by decide) h

lemma splits_iff {text : String} :
    Splits text scheme rest ↔ Text.cut? mark text.toList = some (scheme.toList, rest.toList) := by
  have hmark : "://".toList = mark := rfl
  rw [cut?_eq_some_iff, Splits, ← String.toList_inj, String.toList_append, String.toList_append,
    hmark]

lemma ofString_of_splits (h : Splits (bareText server) scheme rest) :
    Address.ofString server = ⟨some scheme, rest⟩ := by
  have hcut : Text.cut? [':', '/', '/'] (withoutSlashes (Text.trim server)).toList
      = some (scheme.toList, rest.toList) := splits_iff.mp h
  simp only [Address.ofString, hcut, String.ofList_toList]

lemma ofString_of_unmarked (h : ¬mark <:+: (bareText server).toList) :
    Address.ofString server = ⟨none, bareText server⟩ := by
  have hcut : Text.cut? [':', '/', '/'] (withoutSlashes (Text.trim server)).toList = none :=
    (Text.cut?_eq_none_iff (by simp)).mpr h
  simp only [Address.ofString, hcut, bareText]

/-- Every text splits at its first mark, unless none occurs in it. -/
lemma splits_or (text : String) : (∃ scheme rest, Splits text scheme rest) ∨
    ¬mark <:+: text.toList := by
  cases hcut : Text.cut? mark text.toList with
  | none => exact .inr ((Text.cut?_eq_none_iff (by simp [mark])).mp hcut)
  | some x =>
    refine .inl ⟨String.ofList x.1, String.ofList x.2, splits_iff.mpr ?_⟩
    rw [hcut, String.toList_ofList, String.toList_ofList]

lemma Splits.marked {text : String} (h : Splits text scheme rest) : mark <:+: text.toList := by
  rw [h.1, String.toList_append, String.toList_append]
  exact ⟨scheme.toList, rest.toList, rfl⟩

lemma Splits.unique {text scheme' rest' : String} (h : Splits text scheme rest)
    (h' : Splits text scheme' rest') : scheme = scheme' ∧ rest = rest' := by
  have hsame := (splits_iff.mp h).symm.trans (splits_iff.mp h')
  simpa [String.toList_inj] using hsame

/-! ## The bases -/

/-- How a server is spoken to. -/
inductive Transport where
  | plain
  | secure
deriving DecidableEq, Repr

/-- The scheme of requests. -/
def Transport.requestScheme : Transport → String
  | .plain => "http"
  | .secure => "https"

/-- The scheme of web sockets. -/
def Transport.socketScheme : Transport → String
  | .plain => "ws"
  | .secure => "wss"

lemma Transport.requestScheme_inj {t t' : Transport} (h : t.requestScheme = t'.requestScheme) :
    t = t' := by
  revert h
  cases t <;> cases t' <;> simp [requestScheme]

/-- A text begins with `http://` exactly if it has the plain scheme. -/
lemma begins_iff {text : String} : "http://".toList <+: text.toList ↔
    ∃ rest, Splits text Transport.plain.requestScheme rest := by
  constructor
  · rintro ⟨rest, h⟩
    refine ⟨String.ofList rest, String.toList_inj.mp ?_, by decide⟩
    rw [← h]
    simp [Transport.requestScheme]
  · rintro ⟨rest, rfl, -⟩
    exact ⟨rest.toList, by rw [String.toList_append, String.toList_append]; rfl⟩

/-- The bases are addresses of the same place with the same transport. -/
structure IsPair (request socket : Except AddressError String) (t : Transport) (rest : String) :
    Prop where
  request_eq : request = .ok (t.requestScheme ++ "://" ++ rest)
  socket_eq : socket = .ok (t.socketScheme ++ "://" ++ rest)

lemma isPair_of_scheme {t : Transport} (h : Splits (bareText server) t.requestScheme rest) :
    IsPair (httpBase server) (socketBase server) t rest := by
  have hread := ofString_of_splits h
  constructor
  · cases t <;> simp only [httpBase, hread, Transport.requestScheme] <;> rfl
  · cases t <;> simp only [socketBase, hread, Transport.requestScheme] <;> rfl

lemma isPair_of_unmarked (h : ¬mark <:+: (bareText server).toList) :
    IsPair (httpBase server) (socketBase server) .secure (bareText server) := by
  have hread := ofString_of_unmarked h
  constructor <;> simp only [httpBase, socketBase, hread] <;> rfl

/-- The text has a scheme that is not spoken. -/
def IsForeign (text scheme : String) : Prop :=
  (∃ rest, Splits text scheme rest) ∧ ∀ t : Transport, scheme ≠ t.requestScheme

lemma refused_of_isForeign (h : IsForeign (bareText server) scheme) :
    httpBase server = .error (.invalidScheme scheme) ∧
      socketBase server = .error (.invalidScheme scheme) := by
  obtain ⟨⟨rest, hsplits⟩, hforeign⟩ := h
  have hplain : scheme ≠ "http" := hforeign .plain
  have hsecure : scheme ≠ "https" := hforeign .secure
  rw [httpBase, socketBase, ofString_of_splits hsplits]
  dsimp only
  constructor
  · split
    · next heq => exact nomatch heq
    · next heq => exact absurd (Option.some.inj heq) hplain
    · next heq => exact absurd (Option.some.inj heq) hsecure
    · next heq => rw [Option.some.inj heq]
  · split
    · next heq => exact nomatch heq
    · next heq => exact absurd (Option.some.inj heq) hplain
    · next heq => exact absurd (Option.some.inj heq) hsecure
    · next heq => rw [Option.some.inj heq]

/-- Where the scheme is not foreign both bases are given. -/
lemma exists_isPair (h : ¬∃ scheme, IsForeign (bareText server) scheme) :
    ∃ t rest, IsPair (httpBase server) (socketBase server) t rest ∧
      (Splits (bareText server) t.requestScheme rest ∨
        t = .secure ∧ rest = bareText server ∧ ¬mark <:+: (bareText server).toList) := by
  rcases splits_or (bareText server) with ⟨scheme, rest, hsplits⟩ | hmark
  · by_cases hscheme : ∃ t : Transport, scheme = t.requestScheme
    · obtain ⟨t, rfl⟩ := hscheme
      exact ⟨t, rest, isPair_of_scheme hsplits, .inl hsplits⟩
    · exact absurd ⟨scheme, ⟨rest, hsplits⟩, not_exists.mp hscheme⟩ h
  · exact ⟨.secure, _, isPair_of_unmarked hmark, .inr ⟨rfl, rfl, hmark⟩⟩

/-- **The two bases.**  For every configured text the two bases are refused exactly if the bare
text has a scheme that is neither `http` nor `https` in front of its first mark, and then both for
that scheme.  Otherwise both are given, with one rest and one transport; it is the one that the
scheme in front of the first mark names, or the secure one where there is no mark, and so it is
plain exactly if the bare text begins with `http://`. -/
theorem bases_agree (server : String) :
    (∀ e, httpBase server = .error e ↔
      ∃ scheme, e = .invalidScheme scheme ∧ IsForeign (bareText server) scheme) ∧
    (∀ e, socketBase server = .error e ↔ httpBase server = .error e) ∧
    ((¬∃ scheme, IsForeign (bareText server) scheme) →
      ∃ (t : Transport) (rest : String),
        httpBase server = .ok (t.requestScheme ++ "://" ++ rest) ∧
        socketBase server = .ok (t.socketScheme ++ "://" ++ rest) ∧
        (bareText server = t.requestScheme ++ "://" ++ rest ∨
          t = .secure ∧ rest = bareText server ∧ ¬mark <:+: (bareText server).toList) ∧
        (t = .plain ↔ "http://".toList <+: (bareText server).toList)) := by
  have hgiven (h : ¬∃ scheme, IsForeign (bareText server) scheme) (e : AddressError) :
      httpBase server ≠ .error e ∧ socketBase server ≠ .error e := by
    obtain ⟨t, rest, ⟨hrequest, hsocket⟩, -⟩ := exists_isPair h
    rw [hrequest, hsocket]
    exact ⟨nofun, nofun⟩
  refine ⟨?_, ?_, ?_⟩
  · intro e
    constructor
    · intro he
      obtain ⟨scheme, h⟩ := by_contra fun hno => (hgiven hno e).1 he
      rw [(refused_of_isForeign h).1] at he
      exact ⟨scheme, (Except.error.inj he).symm, h⟩
    · rintro ⟨scheme, rfl, h⟩
      exact (refused_of_isForeign h).1
  · intro e
    by_cases h : ∃ scheme, IsForeign (bareText server) scheme
    · obtain ⟨scheme, h⟩ := h
      rw [(refused_of_isForeign h).1, (refused_of_isForeign h).2]
    · exact iff_of_false (hgiven h e).2 (hgiven h e).1
  · intro h
    obtain ⟨t, rest, ⟨hrequest, hsocket⟩, hrest⟩ := exists_isPair h
    refine ⟨t, rest, hrequest, hsocket, hrest.imp_left And.left, ?_⟩
    rw [begins_iff]
    constructor
    · rintro rfl
      rcases hrest with hsplits | ⟨hsecure, -⟩
      · exact ⟨rest, hsplits⟩
      · exact nomatch hsecure
    · rintro ⟨rest', hplain⟩
      rcases hrest with hsplits | ⟨-, -, hmark⟩
      · exact Transport.requestScheme_inj (hsplits.unique hplain).1
      · exact absurd hplain.marked hmark

/-- A plain address between blanks, with slashes at its end and a second mark, and a scheme that is
not spoken. -/
theorem bases_agree_sample :
    (¬∃ scheme, IsForeign (bareText " http://host:5000/a://b// ") scheme) ∧
    (∃ (t : Transport) (rest : String),
      httpBase " http://host:5000/a://b// " = .ok (t.requestScheme ++ "://" ++ rest) ∧
      socketBase " http://host:5000/a://b// " = .ok (t.socketScheme ++ "://" ++ rest) ∧
      t = .plain) ∧
    IsForeign (bareText "HTTP://host") "HTTP" ∧
    socketBase "HTTP://host" = .error (.invalidScheme "HTTP") := by
  obtain ⟨hrefused, -, hgiven⟩ := bases_agree " http://host:5000/a://b// "
  have hspoken : ¬∃ scheme, IsForeign (bareText " http://host:5000/a://b// ") scheme := by
    rintro ⟨scheme, h⟩
    have hok : httpBase " http://host:5000/a://b// " = .ok "http://host:5000/a://b" := by decide
    rw [(hrefused _).mpr ⟨scheme, rfl, h⟩] at hok
    exact nomatch hok
  obtain ⟨t, rest, hrequest, hsocket, -, hplain⟩ := hgiven hspoken
  obtain ⟨hforeign, hsame, -⟩ := bases_agree "HTTP://host"
  have hhttp : httpBase "HTTP://host" = .error (.invalidScheme "HTTP") := by decide
  obtain ⟨scheme, hscheme, h⟩ := (hforeign _).mp hhttp
  obtain rfl := AddressError.invalidScheme.inj hscheme
  exact ⟨hspoken, ⟨t, rest, hrequest, hsocket, hplain.mpr (by decide)⟩, h, (hsame _).mpr hhttp⟩

end FleetAgent.Server
