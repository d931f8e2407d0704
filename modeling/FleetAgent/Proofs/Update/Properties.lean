/-
# Properties arrive as they have been written

The properties in a package are the lines of a text.  If the entry that holds them is stored and has
at most `maxProperties` bytes, they are found as they have been written, whichever way their lines
are ended, and the engine gets back from its arguments what has been found (`properties_arrive`).

Nothing is ever cut off.  Stored properties are all the data of their entry, and inflated ones are
all that the data inflates to, however much output is asked for (`IsWhole`).  An entry of properties
that is larger, before or after inflating, is refused as soon as a walk passes the entries in front
of it.
-/
import FleetAgent.Proofs.Deflate.Limit
import FleetAgent.Proofs.Numeral.Integer
import FleetAgent.Proofs.Text.Encoding
import FleetAgent.Proofs.Text.Pieces
import FleetAgent.Proofs.Update.Passage

namespace FleetAgent.Update.Payload

open FleetAgent.Archive

variable {archive raw out bytes : List UInt8} {e : Entry} {name : String}

/-! ## The bytes of properties -/

/-- What the data of an entry holds in full: the data itself if it is stored, and if it is deflated,
bytes that it inflates to when enough of them are asked for, and never to more. -/
inductive IsWhole (archive : List UInt8) (e : Entry) : List UInt8 → Prop where
  | stored (hmethod : e.method = storedMethod) :
      IsWhole archive e (bytesAt archive e.dataOffset e.storedSize)
  | deflated (hmethod : e.method = deflatedMethod) (enough : Nat)
      (hwhole : ∀ limit,
        (Deflate.inflate limit (bytesAt archive e.dataOffset e.storedSize)).2 <+:
          (Deflate.inflate enough (bytesAt archive e.dataOffset e.storedSize)).2) :
      IsWhole archive e (Deflate.inflate enough (bytesAt archive e.dataOffset e.storedSize)).2

/-- There is one thing only that an entry holds in full. -/
lemma IsWhole.unique {other : List UInt8} (h : IsWhole archive e bytes)
    (h' : IsWhole archive e other) : bytes = other := by
  cases h with
  | stored hmethod =>
    cases h' with
    | stored => rfl
    | deflated hmethod' => exact absurd (hmethod.symm.trans hmethod') (by decide)
  | deflated hmethod enough hwhole =>
    cases h' with
    | stored hmethod' => exact absurd (hmethod'.symm.trans hmethod) (by decide)
    | deflated _ enough' hwhole' =>
      exact (hwhole' enough).eq_of_length_le (hwhole enough').length_le

/-- The properties in an entry are too large: they take up too many bytes, or inflate to too many.
-/
def IsOversized (archive : List UInt8) (e : Entry) : Prop :=
  maxProperties < e.storedSize ∨ e.method = deflatedMethod ∧ ∃ limit,
    maxProperties < (Deflate.inflate limit (bytesAt archive e.dataOffset e.storedSize)).2.length

/-- Bytes that have been inflated are all that there are, and not too many. -/
lemma inflated_eq_ok (h : inflated name raw = .ok out) :
    out = (Deflate.inflate inflateLimit raw).2 ∧ out.length ≤ maxProperties ∧
      ∀ limit, (Deflate.inflate limit raw).2 <+: out := by
  have hout : out = (Deflate.inflate inflateLimit raw).2 ∧ out.length ≤ maxProperties := by
    rw [inflated] at h
    generalize Deflate.inflate inflateLimit raw = result at h ⊢
    obtain ⟨stop, all⟩ := result
    dsimp only at h
    split at h
    · cases h
    · split_ifs at h
    all_goals
      split_ifs at h with hlarge
      obtain rfl := Except.ok.inj h
      exact ⟨rfl, Nat.not_lt.mp hlarge⟩
  obtain ⟨rfl, hsmall⟩ := hout
  refine ⟨rfl, hsmall, fun limit => ?_⟩
  rcases Nat.le_total limit inflateLimit with hle | hle
  · exact (Deflate.inflate_limits hle raw).1
  · -- the output has not come near the limit, so a greater limit makes no difference
    rcases (Deflate.inflate_limits hle raw).2 with ⟨-, hfull⟩ | hsame
    · exact absurd (hfull.trans hsmall) (by decide)
    · rw [hsame]

/-- Properties that are read are whole. -/
lemma propertyBytes_eq_ok (h : propertyBytes archive e = .ok bytes) :
    IsWhole archive e bytes ∧ ¬IsOversized archive e := by
  rw [propertyBytes] at h
  split_ifs at h with hlarge hstored hdeflated <;> obtain ⟨raw, hread, h⟩ := bind_eq_ok.mp h <;>
    obtain ⟨rfl, -⟩ := read_eq_ok hread
  · obtain rfl := Except.ok.inj h
    refine ⟨.stored hstored, ?_⟩
    rintro (hsize | ⟨hmethod, -⟩)
    · exact hlarge hsize
    · exact absurd (hstored.symm.trans hmethod) (by decide)
  · obtain ⟨rfl, hsmall, hwhole⟩ := inflated_eq_ok h
    refine ⟨.deflated hdeflated inflateLimit hwhole, ?_⟩
    rintro (hsize | ⟨-, limit, hlimit⟩)
    · exact hlarge hsize
    · exact Nat.not_lt.mpr ((hwhole limit).length_le.trans hsmall) hlimit
  · cases h

/-- Properties that are stored in few enough bytes are read. -/
lemma propertyBytes_of_stored (hfile : archive.length < Numeral.signed64End)
    (hinside : e.dataOffset + e.storedSize ≤ archive.length) (hmethod : e.method = storedMethod)
    (hsize : e.storedSize ≤ maxProperties) :
    propertyBytes archive e = .ok (bytesAt archive e.dataOffset e.storedSize) := by
  rw [propertyBytes, if_neg (Nat.not_lt.mpr hsize),
    read_eq_bytesAt hinside hsize (by omega)]
  exact if_pos hmethod

/-! ## Refusals -/

/-- A computation that fails only because the archive is corrupt. -/
def OnlyCorrupt {α : Type} (x : Except Failure α) : Prop :=
  ∀ failure, x = .error failure → ∃ c, failure = .corrupt c

section

variable {α β : Type} {x : Except Failure α} {f : α → Except Failure β}

lemma onlyCorrupt_ok (a : α) : OnlyCorrupt (.ok a) := nofun

lemma onlyCorrupt_corrupt (c : Corruption) :
    OnlyCorrupt (.error (.corrupt c) : Except Failure α) :=
  fun _ h => ⟨c, (Except.error.inj h).symm⟩

lemma OnlyCorrupt.bind (hx : OnlyCorrupt x) (hf : ∀ a, OnlyCorrupt (f a)) :
    OnlyCorrupt (x >>= f) := by
  cases x with
  | error failure =>
    obtain ⟨c, rfl⟩ := hx failure rfl
    exact onlyCorrupt_corrupt c
  | ok a => exact hf a

end

variable {pos stop fuel : Nat} {found result : Found} {es : List Entry}

lemma onlyCorrupt_inflated (name : String) (raw : List UInt8) :
    OnlyCorrupt (inflated name raw) := by
  rw [inflated]
  generalize Deflate.inflate inflateLimit raw = result
  obtain ⟨stop, out⟩ := result
  cases stop <;> dsimp only <;> try split_ifs
  all_goals first | exact onlyCorrupt_ok _ | exact onlyCorrupt_corrupt _

lemma onlyCorrupt_propertyBytes (hfile : archive.length < Numeral.signed64End)
    (hinside : e.dataOffset + e.storedSize ≤ archive.length) :
    OnlyCorrupt (propertyBytes archive e) := by
  rw [propertyBytes]
  by_cases hlarge : maxProperties < e.storedSize
  · rw [if_pos hlarge]
    exact onlyCorrupt_corrupt _
  · rw [if_neg hlarge, read_eq_bytesAt hinside (Nat.not_lt.mp hlarge) (by omega)]
    refine (onlyCorrupt_ok _).bind fun raw => ?_
    split_ifs
    · exact onlyCorrupt_ok raw
    · exact onlyCorrupt_inflated e.name raw
    · exact onlyCorrupt_corrupt _

lemma onlyCorrupt_visit (hfile : archive.length < Numeral.signed64End)
    (hinside : e.dataOffset + e.storedSize ≤ archive.length) (found : Found) :
    OnlyCorrupt (found.visit archive e) := by
  rw [Found.visit]
  split_ifs
  · exact onlyCorrupt_ok _
  · exact onlyCorrupt_corrupt _
  · exact (onlyCorrupt_propertyBytes hfile hinside).bind fun bytes => onlyCorrupt_ok _
  · exact onlyCorrupt_ok _

lemma onlyCorrupt_visitAll (hfile : archive.length < Numeral.signed64End)
    (hinside : ∀ e ∈ es, e.dataOffset + e.storedSize ≤ archive.length) (found : Found) :
    OnlyCorrupt (visitAll archive es found) := by
  induction es generalizing found with
  | nil => exact onlyCorrupt_ok found
  | cons e es ih =>
    obtain ⟨he, hes⟩ := List.forall_mem_cons.mp hinside
    rw [visitAll_cons]
    exact (onlyCorrupt_visit hfile he found).bind (ih hes)

/-- Properties that are too large are refused. -/
lemma visit_of_isOversized (hfile : archive.length < Numeral.signed64End)
    (hinside : e.dataOffset + e.storedSize ≤ archive.length) (hname : e.name = propertiesName)
    (hsize : IsOversized archive e) (found : Found) :
    ∃ c, found.visit archive e = .error (.corrupt c) := by
  cases hvisit : found.visit archive e with
  | error failure =>
    obtain ⟨c, rfl⟩ := onlyCorrupt_visit hfile hinside found failure hvisit
    exact ⟨c, rfl⟩
  | ok visited =>
    have hother : e.name ≠ payloadName := hname ▸ by decide
    obtain ⟨hpayload, -⟩ | ⟨-, -, bytes, hbytes, -⟩ | ⟨-, hproperties, -⟩ := visit_eq_ok hvisit
    · exact absurd hpayload hother
    · exact absurd hsize (propertyBytes_eq_ok hbytes).2
    · exact absurd hname hproperties

/-- The walk does not get beyond properties that are too large. -/
lemma walk_of_isOversized (hfile : archive.length < Numeral.signed64End)
    {directory : Except Failure Directory} (hbegins : BeginsAt archive pos)
    (hentry : Entry.ofArchive archive directory pos = .ok e) (hname : e.name = propertiesName)
    (hsize : IsOversized archive e) (fuel : Nat) (found : Found) :
    ∃ c, walk archive directory (fuel + 1) pos found = .error (.corrupt c) := by
  have hstep : ∃ c, step archive directory pos found = .error (.corrupt c) := by
    by_cases hinside : e.dataOffset + e.storedSize ≤ archive.length
    · obtain ⟨c, hvisit⟩ := visit_of_isOversized hfile hinside hname hsize found
      refine ⟨c, ?_⟩
      rw [step_of_ofArchive hfile hentry hinside, hvisit]
      rfl
    · refine ⟨.pastEnd e.name, ?_⟩
      rw [step, hentry]
      exact if_pos (Nat.lt_of_not_le hinside)
  obtain ⟨c, hstep⟩ := hstep
  refine ⟨c, ?_⟩
  rw [walk, entryBegins_of_beginsAt hfile hbegins]
  simp only [bind, Except.bind, if_true, hstep]

/-- So a search that gets to them fails. -/
lemma find_of_isOversized (hfile : archive.length < Numeral.signed64End)
    (hpasses : Passes archive (Directory.ofArchive archive) 0 es pos)
    (hbegins : BeginsAt archive pos)
    (hentry : Entry.ofArchive archive (Directory.ofArchive archive) pos = .ok e)
    (hname : e.name = propertiesName) (hsize : IsOversized archive e) :
    ∃ c, find archive = .error (.corrupt c) := by
  obtain ⟨fuel, hfind⟩ := hpasses.find_eq hfile
  have hvisits := onlyCorrupt_visitAll hfile (fun _ he => hpasses.inside he) ⟨none, none⟩
  rw [hfind]
  cases hvisited : visitAll archive es ⟨none, none⟩ with
  | error failure =>
    obtain ⟨c, rfl⟩ := hvisits failure hvisited
    exact ⟨c, rfl⟩
  | ok found => exact walk_of_isOversized hfile hbegins hentry hname hsize fuel found

/-! ## Properties that are found -/

/-- Entries that are not named as the properties leave them alone; the payload is found among them
if it is there, and stays if it has been found before. -/
lemma visitAll_of_ne (hstored : ∀ p ∈ es, p.name = payloadName → p.method = storedMethod)
    (hother : ∀ x ∈ es, x.name ≠ propertiesName) (found : Found) :
    ∃ result, visitAll archive es found = .ok result ∧ result.properties = found.properties ∧
      (found.payload.isSome = true ∨ (∃ p ∈ es, p.name = payloadName) →
        result.payload.isSome = true) := by
  induction es generalizing found with
  | nil => exact ⟨found, rfl, rfl, fun h => h.resolve_right fun ⟨_, hp, _⟩ => nomatch hp⟩
  | cons e es ih =>
    obtain ⟨hmethod, hstored⟩ := List.forall_mem_cons.mp hstored
    obtain ⟨hname, hother⟩ := List.forall_mem_cons.mp hother
    rw [visitAll_cons, Found.visit]
    by_cases hpayload : e.name = payloadName
    · obtain ⟨result, hresult, hproperties, hfound⟩ := ih hstored hother
        { found with payload := some (e.dataOffset, e.storedSize) }
      rw [if_pos hpayload, if_pos (hmethod hpayload)]
      exact ⟨result, hresult, hproperties, fun _ => hfound (.inl rfl)⟩
    · obtain ⟨result, hresult, hproperties, hfound⟩ := ih hstored hother found
      rw [if_neg hpayload, if_neg hname]
      refine ⟨result, hresult, hproperties, fun h => hfound (h.imp_right ?_)⟩
      rintro ⟨p, hp, hp'⟩
      rcases List.mem_cons.mp hp with rfl | hp
      · exact absurd hp' hpayload
      · exact ⟨p, hp, hp'⟩

/-- An archive holds a text of properties: the entries that a walk passes, up to where no entry
begins, are a stored payload and others, of which exactly one is named as the properties; it is
stored, and its data is the text. -/
structure HoldsText (archive : List UInt8) (es : List Entry) (text : String) : Prop where
  passes : ∃ stop, Passes archive (Directory.ofArchive archive) 0 es stop ∧ ¬BeginsAt archive stop
  payload : ∃ p ∈ es, p.name = payloadName
  stored : ∀ p ∈ es, p.name = payloadName → p.method = storedMethod
  properties : ∃ before e after, es = before ++ e :: after ∧
    (e.name = propertiesName ∧ e.method = storedMethod ∧
      bytesAt archive e.dataOffset e.storedSize = Text.Utf8.encode text) ∧
    ∀ x ∈ before ++ after, x.name ≠ propertiesName

/-- A text is written of lines, each of which is ended by a line feed, with or without a carriage
return in front of it, apart from the last one if that is not empty. -/
def IsWrittenOf (text : String) (lines : List String) : Prop :=
  Text.Lines '\n' '\r' text.toList (lines.map String.toList)

lemma propertyLines_encode {text : String} {lines : List String} (h : IsWrittenOf text lines) :
    propertyLines (Text.Utf8.encode text) = lines := by
  rw [propertyLines, Text.Utf8.decodeLossyChars_encode, Text.lines, h.linesBy_eq (by decide),
    List.map_map]
  exact List.map_id'' (fun _ => String.ofList_toList) lines

/-- The text that an archive holds is found. -/
lemma HoldsText.find_eq {text : String} (h : HoldsText archive es text)
    (hfile : archive.length < Numeral.signed64End)
    (hsize : (Text.Utf8.encode text).length ≤ maxProperties) :
    ∃ found, find archive = .ok found ∧ found.payload.isSome = true ∧
      found.properties = some (propertyLines (Text.Utf8.encode text)) := by
  obtain ⟨stop, hpasses, hbehind⟩ := h.passes
  obtain ⟨before, e, after, rfl, ⟨hname, hmethod, hdata⟩, hother⟩ := h.properties
  obtain ⟨hbefore, hafter⟩ := List.forall_mem_append.mp hother
  obtain ⟨hstored, hstored'⟩ := List.forall_mem_append.mp h.stored
  have hne : e.name ≠ payloadName := hname ▸ by decide
  obtain ⟨first, hfirst, -, hpayload⟩ := visitAll_of_ne hstored hbefore ⟨none, none⟩
  -- the data is all there, so its length is the size of the entry
  have hinside := hpasses.inside (List.mem_append_right before List.mem_cons_self)
  have hlength : e.storedSize = (Text.Utf8.encode text).length := by
    rw [← hdata, length_bytesAt hinside]
  have hbytes := propertyBytes_of_stored hfile hinside hmethod (hlength ▸ hsize)
  have hvisit : first.visit archive e = .ok { first with
      properties := some (propertyLines (Text.Utf8.encode text)) } := by
    rw [Found.visit, if_neg hne, if_pos hname, hbytes, hdata]
    rfl
  obtain ⟨found, hfound, hproperties, hpayload'⟩ := visitAll_of_ne
    (List.forall_mem_cons.mp hstored').2 hafter
    { first with properties := some (propertyLines (Text.Utf8.encode text)) }
  refine ⟨found, ?_, hpayload' ?_, hproperties⟩
  · rw [hpasses.find_eq_visitAll hfile hbehind (by simp), visitAll_append, hfirst]
    refine bind_eq_ok.mpr ⟨first, rfl, ?_⟩
    rw [visitAll_cons, hvisit]
    exact hfound
  · obtain ⟨p, hp, hp'⟩ := h.payload
    rcases List.mem_append.mp hp with hp | hp
    · exact .inl (hpayload (.inr ⟨p, hp, hp'⟩))
    · rcases List.mem_cons.mp hp with rfl | hp
      · exact absurd hp' hne
      · exact .inr ⟨p, hp, hp'⟩

/-! ## Arguments -/

/-- The arguments of the engine tell the place of the payload and the properties: the numbers are
read back, and so are the properties, if there are any, as the pieces between line feeds. -/
def Conveys (arguments : List String) (spec : PayloadSpec) : Prop :=
  ∃ offset size headers, arguments = ["--update", "--payload=" ++ spec.sourceUri,
      "--offset=" ++ offset, "--size=" ++ size, "--headers=" ++ headers] ∧
    Numeral.natural? offset.toList = some spec.offset ∧
    Numeral.natural? size.toList = some spec.size ∧
    (spec.properties ≠ [] →
      (Text.splitAt (· == '\n') headers.toList).map String.ofList = spec.properties)

lemma natural?_toString (n : Nat) : Numeral.natural? (toString n).toList = some n := by
  rw [Numeral.natural?_eq_some_iff, Nat.toString_eq_repr, Nat.toList_repr]
  exact Numeral.isDigits_toDigits n

lemma conveys_applyArguments {spec : PayloadSpec}
    (h : ∀ line ∈ spec.properties, '\n' ∉ line.toList) :
    Conveys (Engine.applyArguments spec) spec := by
  refine ⟨toString spec.offset, toString spec.size, Text.join "\n" spec.properties, rfl,
    natural?_toString _, natural?_toString _, fun hne => ?_⟩
  have hpieces : ∀ piece ∈ spec.properties.map String.toList, ∀ c ∈ piece, (c == '\n') = false := by
    intro piece hpiece c hc
    obtain ⟨line, hline, rfl⟩ := List.mem_map.mp hpiece
    exact beq_eq_false_iff_ne.mpr (ne_of_mem_of_not_mem hc (h line hline))
  have hsplit : Text.splitAt (· == '\n') (['\n'].intercalate (spec.properties.map String.toList))
      = spec.properties.map String.toList :=
    Text.splitAt_eq_iff.mpr (Text.separated_intercalate (beq_self_eq_true '\n') hpieces
      (mt List.map_eq_nil_iff.mp hne))
  rw [Text.join, String.toList_intercalate, show "\n".toList = ['\n'] from rfl, hsplit,
    List.map_map]
  exact List.map_id'' (fun _ => String.ofList_toList) spec.properties

/-! ## Main result -/

/-- What a search that succeeds has found. -/
lemma specOf_eq_ok {path : String} {spec : PayloadSpec} (h : specOf path archive = .ok spec) :
    ∃ found, find archive = .ok found ∧ found.payload = some (spec.offset, spec.size) ∧
      spec.properties = found.properties.getD defaultProperties := by
  rw [specOf] at h
  split at h
  · cases h
  next found hfind =>
  split at h
  · cases h
  next offset size hpayload =>
  obtain rfl := Except.ok.inj h
  exact ⟨found, hfind, hpayload, rfl⟩

lemma lines_propertyLines (bytes : List UInt8) :
    Text.Lines '\n' '\r' (Text.Utf8.decodeLossyChars bytes)
      ((propertyLines bytes).map String.toList) := by
  have hsame : (propertyLines bytes).map String.toList
      = Text.lines (Text.Utf8.decodeLossyChars bytes) := by
    rw [propertyLines, List.map_map]
    exact List.map_id'' (fun _ => String.toList_ofList) _
  rw [hsame]
  exact Text.lines_linesBy '\n' '\r' _

/-- No property that is found holds a line feed. -/
lemma not_mem_of_mem_propertyLines {line : String} (h : line ∈ propertyLines bytes) :
    '\n' ∉ line.toList := by
  obtain ⟨cs, hcs, rfl⟩ := List.mem_map.mp h
  rw [String.toList_ofList]
  exact (Text.lines_linesBy '\n' '\r' (Text.Utf8.decodeLossyChars bytes)).not_mem hcs

/-- The properties that are found are the default, or the lines of a whole text. -/
lemma properties_of_find (h : find archive = .ok found) :
    found.properties.getD defaultProperties = defaultProperties ∨ ∃ es stop x bytes,
      Chain archive (Directory.ofArchive archive) 0 es stop ∧
        IsLastNamed archive propertiesName es x ∧ IsWhole archive x.2 bytes ∧
        found.properties.getD defaultProperties = propertyLines bytes := by
  obtain ⟨es, stop, hchain, -, htells⟩ := find_eq_ok h
  cases hlast : lastNamed? archive propertiesName es with
  | none =>
    rw [htells.properties_none hlast]
    exact .inl rfl
  | some x =>
    obtain ⟨bytes, hbytes, hproperties⟩ := htells.properties_some x hlast
    rw [hproperties]
    exact .inr ⟨es, stop, x, bytes, hchain, lastNamed?_eq_some_iff.mp hlast,
      (propertyBytes_eq_ok hbytes).1, rfl⟩

/-- **Properties arrive as they have been written.**  If an archive holds a text of at most 65536
bytes that is written of some lines, the payload is found with exactly these lines as its
properties, and the arguments of the engine tell them, together with the place of the payload.

Whatever an archive is, no property that is found holds a line feed, so the arguments tell what has
been found; and unless it is the default, it is the lines of all that the last entry of properties
holds, of which nothing has been cut off.  An entry of properties that is too large, before or after
inflating, makes the archive corrupt if a walk passes the entries in front of it. -/
theorem properties_arrive (path : String) (archive : List UInt8) :
    (archive.length < Numeral.signed64End → ∀ es text lines, HoldsText archive es text →
      (Text.Utf8.encode text).length ≤ 65536 → IsWrittenOf text lines →
      ∃ spec, specOf path archive = .ok spec ∧ spec.properties = lines ∧
        Conveys (Engine.applyArguments spec) spec) ∧
    (∀ spec, specOf path archive = .ok spec →
      (∀ line ∈ spec.properties, '\n' ∉ line.toList) ∧
      Conveys (Engine.applyArguments spec) spec ∧
      (spec.properties = defaultProperties ∨ ∃ es stop x bytes,
        Chain archive (Directory.ofArchive archive) 0 es stop ∧
          IsLastNamed archive propertiesName es x ∧ IsWhole archive x.2 bytes ∧
          spec.properties = propertyLines bytes)) ∧
    (archive.length < Numeral.signed64End → ∀ es pos e,
      Passes archive (Directory.ofArchive archive) 0 es pos → BeginsAt archive pos →
      Entry.ofArchive archive (Directory.ofArchive archive) pos = .ok e →
      e.name = propertiesName → IsOversized archive e →
      ∃ c, specOf path archive = .error (.archiveCorrupt c)) := by
  have hfree : ∀ spec, specOf path archive = .ok spec →
      ∀ line ∈ spec.properties, '\n' ∉ line.toList := by
    intro spec hspec line hline
    obtain ⟨found, hfind, -, hproperties⟩ := specOf_eq_ok hspec
    rw [hproperties] at hline
    obtain hdefault | ⟨-, -, -, bytes, -, -, -, hlines⟩ := properties_of_find hfind
    · rw [hdefault, defaultProperties, List.mem_singleton] at hline
      subst hline
      decide
    · rw [hlines] at hline
      exact not_mem_of_mem_propertyLines hline
  refine ⟨fun hfile es text lines hholds hsize hlines => ?_, fun spec hspec => ?_,
    fun hfile es pos e hpasses hbegins hentry hname hsize => ?_⟩
  · obtain ⟨⟨payload, properties⟩, hfind, hpayload, hproperties⟩ := hholds.find_eq hfile hsize
    obtain ⟨⟨offset, size⟩, rfl⟩ := Option.isSome_iff_exists.mp hpayload
    dsimp only at hproperties
    rw [propertyLines_encode hlines] at hproperties
    have hspec : specOf path archive = .ok ⟨"file://" ++ path, offset, size, lines⟩ := by
      rw [specOf, hfind, hproperties]
      rfl
    exact ⟨_, hspec, rfl, conveys_applyArguments (hfree _ hspec)⟩
  · obtain ⟨found, hfind, -, hproperties⟩ := specOf_eq_ok hspec
    refine ⟨hfree spec hspec, conveys_applyArguments (hfree spec hspec), ?_⟩
    rw [hproperties]
    exact properties_of_find hfind
  · obtain ⟨c, hfind⟩ := find_of_isOversized hfile hpasses hbegins hentry hname hsize
    refine ⟨c, ?_⟩
    rw [specOf, hfind]
    rfl

/-- A package with two properties, the first of which ends with a carriage return and a line feed,
and the second with the text. -/
def textPackage : List UInt8 :=
  archiveOf [.stored (Text.Utf8.encode payloadName) [1, 2, 3],
    .stored (Text.Utf8.encode propertiesName) (Text.Utf8.encode "A=1\r\nB=ü")]

/-- The entries of this package. -/
def textEntries : List Entry :=
  [⟨payloadName, 0, 0, 41, 3, false⟩, ⟨propertiesName, 0, 0, 96, 9, false⟩]

lemma holdsText_textPackage : HoldsText textPackage textEntries "A=1\r\nB=ü" where
  passes := ⟨105, .cons 0 _ _ 105 (by decide +kernel) (by decide +kernel) (by decide +kernel)
    (.cons 44 _ _ 105 (by decide +kernel) (by decide +kernel) (by decide +kernel) (.nil 105)),
    by decide +kernel⟩
  payload := ⟨_, List.mem_cons_self, rfl⟩
  stored p hp _ := by
    revert p
    decide
  properties := ⟨[⟨payloadName, 0, 0, 41, 3, false⟩], _, [], rfl,
    ⟨rfl, rfl, by decide +kernel⟩, by decide⟩

/-- A properties entry whose header announces one byte too many. -/
def hugeEntry : List UInt8 :=
  fields [(4, entrySignature), (2, 20), (2, 0), (2, 0), (4, 0), (4, 0), (4, 65537), (4, 65537),
    (2, 22), (2, 0)] ++ Text.Utf8.encode propertiesName

/-- Two properties arrive, and a properties entry that is too large is refused. -/
theorem properties_arrive_sample :
    textPackage.length < Numeral.signed64End ∧
      HoldsText textPackage textEntries "A=1\r\nB=ü" ∧
      IsWrittenOf "A=1\r\nB=ü" ["A=1", "B=ü"] ∧
      (∃ spec, specOf "/data/ota.zip" textPackage = .ok spec ∧
        spec.properties = ["A=1", "B=ü"] ∧ Conveys (Engine.applyArguments spec) spec) ∧
      IsOversized hugeEntry ⟨propertiesName, 0, 0, 52, 65537, false⟩ ∧
      ∃ c, specOf "/data/ota.zip" hugeEntry = .error (.archiveCorrupt c) := by
  have hfile : textPackage.length < Numeral.signed64End := by decide +kernel
  have hwritten : IsWrittenOf "A=1\r\nB=ü" ["A=1", "B=ü"] :=
    .returned ['A', '=', '1'] ['B', '=', 'ü'] _ (by decide) (.last _ (by decide) (by decide))
  have hhuge : IsOversized hugeEntry ⟨propertiesName, 0, 0, 52, 65537, false⟩ := .inl (by decide)
  refine ⟨hfile, holdsText_textPackage, hwritten, ?_, hhuge, ?_⟩
  · exact (properties_arrive "/data/ota.zip" textPackage).1 hfile _ _ _ holdsText_textPackage
      (by decide +kernel) hwritten
  · exact (properties_arrive "/data/ota.zip" hugeEntry).2.2 (by decide +kernel) [] 0 _ (.nil 0)
      (by decide +kernel) (by decide +kernel) rfl hhuge

end FleetAgent.Update.Payload
