/-
# Extra fields

A block of extra fields is a row of whole fields with a rest behind them in which no whole field
begins: it is too short for the head of a field, or shorter than the head tells (`HoldsNoField`).
Every byte string is a row of fields with such a rest (`exists_fields`), so the search for the wide
sizes is known for all byte strings once it is known for rows: it passes the fields one by one, up
to the first one with the identifier or to the rest (`wideSizes_extraBlock_append`).

What is found are the numbers in that one field (`numbersIn`), up to seven bytes at its end left
out.  A field that overruns the block is never looked into, whatever its identifier is
(`wideSizes_eq_some_iff`).

A writer puts the wide sizes in one field, in their order, and it may put other fields in front of
that one (`HoldsWide`).  Each size is then found at its index (`HoldsWide.wideSize_eq`).
-/
import FleetAgent.Proofs.Archive.Inside

namespace FleetAgent.Archive

/-! ## Numbers of 64 bits -/

/-- The numbers of 64 bits in a byte string, one for each whole group of eight bytes. -/
def numbersIn (data : List UInt8) : List Nat :=
  (List.range (data.length / 8)).map fun k => numberAt data (8 * k) 8

lemma numbersIn_of_short {data : List UInt8} (h : data.length < 8) : numbersIn data = [] := by
  simp [numbersIn, Nat.div_eq_of_lt h]

lemma numbersIn_append {group : List UInt8} (hgroup : group.length = 8) (rest : List UInt8) :
    numbersIn (group ++ rest) = number group :: numbersIn rest := by
  have hcount : (group ++ rest).length / 8 = rest.length / 8 + 1 := by
    rw [List.length_append, hgroup]
    omega
  have hfirst : numberAt (group ++ rest) (8 * 0) 8 = number group := by
    simp [numberAt, bytesAt, ← hgroup]
  have hlater (k : Nat) : numberAt (group ++ rest) (8 * (k + 1)) 8 = numberAt rest (8 * k) 8 := by
    have hplace : 8 * (k + 1) = group.length + 8 * k := by omega
    rw [numberAt, numberAt, bytesAt, bytesAt, hplace, ← List.drop_drop, List.drop_left]
  rw [numbersIn, hcount, List.range_succ_eq_map, List.map_cons, List.map_map, hfirst, numbersIn]
  congr 1
  exact List.map_congr_left fun k _ => hlater k

lemma number64s_eq (data : List UInt8) : number64s data = numbersIn data := by
  fun_induction number64s data with
  | case1 a b c d e f g h rest ih => rw [ih, ← numbersIn_append rfl]; rfl
  | case2 data hshort =>
    refine (numbersIn_of_short (Nat.lt_of_not_le fun hlong => ?_)).symm
    rcases data with _ | ⟨a, _ | ⟨b, _ | ⟨c, _ | ⟨d, _ | ⟨e, _ | ⟨f, _ | ⟨g, _ | ⟨h, rest⟩⟩⟩⟩⟩⟩⟩⟩
    case cons.cons.cons.cons.cons.cons.cons.cons => exact hshort a b c d e f g h rest rfl
    all_goals simp at hlong

/-- Writing the number of some bytes in as many bytes gives them back. -/
lemma bytesOf_number (bs : List UInt8) : bytesOf bs.length (number bs) = bs := by
  induction bs with
  | nil => rfl
  | cons b bs ih =>
    have hb : b.toNat < 256 := b.toNat_lt
    have hlow : (b.toNat + 256 * number bs) % 256 = b.toNat := by omega
    have hhigh : (b.toNat + 256 * number bs) / 256 = number bs := by omega
    rw [number, List.length_cons, bytesOf, hlow, hhigh, ih, UInt8.ofNat_toNat]

lemma bytesOf_numberAt {bs : List UInt8} {pos width : Nat} (h : pos + width ≤ bs.length) :
    bytesOf width (numberAt bs pos width) = bytesAt bs pos width := by
  have hbytes := bytesOf_number (bytesAt bs pos width)
  rwa [length_bytesAt h] at hbytes

/-! ## Rows of fields -/

/-- The identifier and the length of an extra field fit 16 bits. -/
structure ExtraField.Fits (f : ExtraField) : Prop where
  id : f.id < 256 ^ 2
  data : f.data.length < 256 ^ 2

/-- A field begins that is longer than what is left. -/
def Overruns (rest : List UInt8) : Prop :=
  4 ≤ rest.length ∧ rest.length < 4 + numberAt rest 2 2

instance (rest : List UInt8) : Decidable (Overruns rest) :=
  inferInstanceAs (Decidable (_ ∧ _))

/-- No whole field begins. -/
def HoldsNoField (rest : List UInt8) : Prop :=
  rest.length < 4 ∨ Overruns rest

/-- The first field of wide sizes in a block: there are only whole fields with other identifiers in
front of it. -/
def FirstWide (extra : List UInt8) (wide : ExtraField) : Prop :=
  ∃ (before : List ExtraField) (after : List UInt8),
    extra = extraBlock before ++ (wide.bytes ++ after) ∧
    (∀ f ∈ before, f.Fits ∧ f.id ≠ wideSizesId) ∧ wide.Fits ∧ wide.id = wideSizesId

variable {extra rest : List UInt8} {fs : List ExtraField} {f wide : ExtraField} {i : Nat}

@[simp] lemma extraBlock_nil : extraBlock [] = [] := rfl

@[simp] lemma extraBlock_cons (f : ExtraField) (fs : List ExtraField) :
    extraBlock (f :: fs) = f.bytes ++ extraBlock fs := rfl

@[simp] lemma extraBlock_append (fs gs : List ExtraField) :
    extraBlock (fs ++ gs) = extraBlock fs ++ extraBlock gs := by
  simp [extraBlock]

lemma length_bytes_extraField (f : ExtraField) : f.bytes.length = 4 + f.data.length := by
  simp [ExtraField.bytes]

lemma length_extraBlock_ge (fs : List ExtraField) : fs.length ≤ (extraBlock fs).length := by
  induction fs with
  | nil => simp
  | cons f fs ih =>
    rw [extraBlock_cons, List.length_append, length_bytes_extraField, List.length_cons]
    omega

lemma length_bytes_le_extraBlock (h : f ∈ fs) : f.bytes.length ≤ (extraBlock fs).length := by
  obtain ⟨before, after, rfl⟩ := List.append_of_mem h
  simp only [extraBlock_append, extraBlock_cons, List.length_append]
  omega

/-- A byte string in which a whole field begins is that field with the bytes behind it. -/
lemma exists_field (h : ¬ HoldsNoField extra) :
    ∃ (f : ExtraField) (rest : List UInt8), extra = f.bytes ++ rest ∧ f.Fits := by
  rw [HoldsNoField, Overruns] at h
  have hhead : 4 ≤ extra.length := by omega
  have hwhole : 4 + numberAt extra 2 2 ≤ extra.length := by omega
  have hdata : (bytesAt extra 4 (numberAt extra 2 2)).length = numberAt extra 2 2 :=
    length_bytesAt hwhole
  have hid : bytesOf 2 (numberAt extra 0 2) = bytesAt extra 0 2 := bytesOf_numberAt (by omega)
  have hlen : bytesOf 2 (numberAt extra 2 2) = bytesAt extra 2 2 := bytesOf_numberAt (by omega)
  refine ⟨⟨numberAt extra 0 2, bytesAt extra 4 (numberAt extra 2 2)⟩,
    extra.drop (4 + numberAt extra 2 2), ?_, numberAt_lt _ _ _, ?_⟩
  · have hhalves : bytesAt extra 0 2 ++ bytesAt extra 2 2 = bytesAt extra 0 4 := by
      rw [← take_bytesAt extra 0 2 2, ← Nat.zero_add 2, ← drop_bytesAt extra 0 2 2,
        List.take_append_drop]
    have hbytes : bytesAt extra 0 4 ++ bytesAt extra 4 (numberAt extra 2 2)
        = extra.take (4 + numberAt extra 2 2) := by
      rw [List.take_add]
      rfl
    simp only [ExtraField.bytes, fields_cons, fields_nil, List.append_nil, hdata, hid, hlen,
      hhalves, hbytes, List.take_append_drop]
  · rw [hdata]
    exact numberAt_lt extra 2 2

/-- **Every byte string is a row of fields with a rest that holds no field.** -/
lemma exists_fields (extra : List UInt8) : ∃ (fs : List ExtraField) (rest : List UInt8),
    extra = extraBlock fs ++ rest ∧ (∀ f ∈ fs, f.Fits) ∧ HoldsNoField rest := by
  induction hlength : extra.length using Nat.strongRecOn generalizing extra with
  | _ n ih =>
    by_cases hnone : HoldsNoField extra
    · exact ⟨[], extra, rfl, nofun, hnone⟩
    · obtain ⟨f, behind, rfl, hf⟩ := exists_field hnone
      have hless : behind.length < n := by
        rw [List.length_append, length_bytes_extraField] at hlength
        omega
      obtain ⟨fs, rest, rfl, hfs, hrest⟩ := ih behind.length hless behind rfl
      exact ⟨f :: fs, rest, by simp, List.forall_mem_cons.mpr ⟨hf, hfs⟩, hrest⟩

/-! ## The search -/

/-- Where a field stands, the search ends with its numbers or goes on behind it. -/
lemma wideSizesFrom_of_standsAt {extra : List UInt8} {f : ExtraField} {i : Nat}
    (hat : StandsAt extra i f.bytes) (hid : f.id < 256 ^ 2) (hlen : f.data.length < 256 ^ 2)
    (hend : i + f.bytes.length < Numeral.unsigned64End) (fuel : Nat) :
    wideSizesFrom extra (fuel + 1) i
      = if f.id = wideSizesId then .ok (some (number64s f.data))
        else wideSizesFrom extra fuel (i + f.bytes.length) := by
  have hbytes : f.bytes = fields [(2, f.id), (2, f.data.length)] ++ f.data := rfl
  have hroom := hat.length_le
  rw [length_bytes_extraField] at hroom hend ⊢
  rw [hbytes] at hat
  have hstart : add i 4 = .ok (i + 4) := add_eq_ok (by omega)
  have hfit : i + 4 ≤ extra.length := by omega
  have hfieldId : field extra i 2 = .ok f.id := by
    have h := field_of_fields hat 0 rfl
    rwa [Nat.mod_eq_of_lt hid] at h
  have hfieldLen : field extra (i + 2) 2 = .ok f.data.length := by
    have h := field_of_fields hat 1 rfl
    rwa [Nat.mod_eq_of_lt hlen] at h
  have hnext : add (i + 4) f.data.length = .ok (i + (4 + f.data.length)) := by
    rw [add_eq_ok (by omega), Nat.add_assoc]
  have hdata : slice? extra (i + 4) f.data.length = some f.data := slice?_eq_of_standsAt hat.right
  rw [wideSizesFrom, hstart]
  simp only [bind, Except.bind, hfit, if_true, hfieldId, hfieldLen, hnext, hdata]

lemma slice?_eq_none {bs : List UInt8} {start n : Nat} (hstart : start ≤ bs.length)
    (h : bs.length < start + n) : slice? bs start n = none := by
  rw [slice?, if_neg]
  rw [List.length_take, List.length_drop]
  omega

/-- The search ends where no whole field begins. -/
lemma wideSizesFrom_of_holdsNoField (hextra : extra.length < Numeral.signed64End)
    (hat : StandsAt extra i rest) (hlast : i + rest.length = extra.length)
    (hnone : HoldsNoField rest) (fuel : Nat) : wideSizesFrom extra (fuel + 1) i = .ok none := by
  have hstart : add i 4 = .ok (i + 4) := add_eq_ok_of_near (by omega) hextra
  rw [wideSizesFrom, hstart]
  by_cases hroom : i + 4 ≤ extra.length
  · have hover : Overruns rest := hnone.resolve_left (by omega)
    have hlen : numberAt extra (i + 2) 2 = numberAt rest 2 2 := by
      rw [← numberAt_bytesAt extra i hover.1, bytesAt_of_standsAt hat]
    have hlt := numberAt_lt extra (i + 2) 2
    have hnext : add (i + 4) (numberAt extra (i + 2) 2) = .ok _ :=
      add_eq_ok_of_near (by omega) hextra
    have hdata : slice? extra (i + 4) (numberAt extra (i + 2) 2) = none :=
      slice?_eq_none hroom (by have := hover.2; omega)
    have hid : field extra i 2 = .ok _ := field_eq_numberAt (by omega)
    have hlength : field extra (i + 2) 2 = .ok _ := field_eq_numberAt (by omega)
    simp only [bind, Except.bind, hroom, if_true, hid, hlength, hnext, hdata]
  · simp only [bind, Except.bind, hroom, if_false]

/-- The search goes through a row of fields up to the first field of wide sizes. -/
lemma wideSizesFrom_extraBlock_append (hextra : extra.length < Numeral.signed64End)
    (hrest : HoldsNoField rest) (hfs : ∀ f ∈ fs, f.Fits) :
    ∀ fuel i, fs.length < fuel → StandsAt extra i (extraBlock fs ++ rest) →
      i + (extraBlock fs ++ rest).length = extra.length →
      wideSizesFrom extra fuel i
        = .ok ((fs.find? fun f => f.id = wideSizesId).map fun f => numbersIn f.data) := by
  induction fs with
  | nil =>
    intro fuel i hfuel hat hlast
    obtain ⟨fuel, rfl⟩ : ∃ m, fuel = m + 1 := ⟨fuel - 1, by simp at hfuel; omega⟩
    exact wideSizesFrom_of_holdsNoField hextra hat hlast hrest fuel
  | cons f fs ih =>
    intro fuel i hfuel hat hlast
    obtain ⟨fuel, rfl⟩ : ∃ m, fuel = m + 1 := ⟨fuel - 1, by simp at hfuel; omega⟩
    obtain ⟨hf, hlater⟩ := List.forall_mem_cons.mp hfs
    rw [extraBlock_cons, List.append_assoc] at hat hlast
    have hend := hat.left.length_le
    rw [wideSizesFrom_of_standsAt hat.left hf.id hf.data
      (Nat.lt_of_le_of_lt hend (Nat.lt_trans hextra (by decide)))]
    by_cases hid : f.id = wideSizesId
    · simp [hid, number64s_eq]
    · rw [if_neg hid, List.find?_cons_of_neg (by simpa using hid)]
      refine ih hlater fuel _ (by simp only [List.length_cons] at hfuel; omega) hat.right ?_
      rw [List.length_append] at hlast
      omega

/-- **The first field of wide sizes in a row is found.** -/
lemma wideSizes_extraBlock_append (hextra : (extraBlock fs ++ rest).length < Numeral.signed64End)
    (hfs : ∀ f ∈ fs, f.Fits) (hrest : HoldsNoField rest) :
    wideSizes (extraBlock fs ++ rest)
      = .ok ((fs.find? fun f => f.id = wideSizesId).map fun f => numbersIn f.data) := by
  have hge := length_extraBlock_ge fs
  refine wideSizesFrom_extraBlock_append hextra hrest hfs _ 0 ?_ (standsAt_self _) (Nat.zero_add _)
  rw [List.length_append]
  omega

/-- A search always ends with an answer. -/
lemma exists_wideSizes (hextra : extra.length < Numeral.signed64End) :
    ∃ found, wideSizes extra = .ok found := by
  obtain ⟨fs, rest, rfl, hfs, hrest⟩ := exists_fields extra
  exact ⟨_, wideSizes_extraBlock_append hextra hfs hrest⟩

/-- The numbers of the first field of wide sizes are found, whatever follows it. -/
lemma FirstWide.wideSizes_eq (h : FirstWide extra wide)
    (hextra : extra.length < Numeral.signed64End) :
    wideSizes extra = .ok (some (numbersIn wide.data)) := by
  obtain ⟨before, after, rfl, hbefore, hwide, hid⟩ := h
  obtain ⟨behind, rest, rfl, hbehind, hrest⟩ := exists_fields after
  have hrow : extraBlock before ++ (wide.bytes ++ (extraBlock behind ++ rest))
      = extraBlock (before ++ wide :: behind) ++ rest := by simp
  have hfits : ∀ f ∈ before ++ wide :: behind, f.Fits := by
    intro f hf
    rcases List.mem_append.mp hf with hf | hf
    · exact (hbefore f hf).1
    · rcases List.mem_cons.mp hf with rfl | hf
      · exact hwide
      · exact hbehind f hf
  have hfind : (before ++ wide :: behind).find? (fun f => f.id = wideSizesId) = some wide := by
    rw [List.find?_eq_some_iff_append]
    exact ⟨by simpa using hid, before, behind, rfl, fun f hf => by simpa using (hbefore f hf).2⟩
  rw [hrow] at hextra ⊢
  rw [wideSizes_extraBlock_append hextra hfits hrest, hfind]
  rfl

/-- **Wide sizes are only found in the first field of wide sizes.** -/
lemma wideSizes_eq_some_iff {sizes : List Nat} (hextra : extra.length < Numeral.signed64End) :
    wideSizes extra = .ok (some sizes) ↔
      ∃ wide, FirstWide extra wide ∧ sizes = numbersIn wide.data := by
  constructor
  · intro h
    obtain ⟨fs, rest, rfl, hfs, hrest⟩ := exists_fields extra
    rw [wideSizes_extraBlock_append hextra hfs hrest, Except.ok.injEq] at h
    obtain ⟨wide, hfind, rfl⟩ := Option.map_eq_some_iff.mp h
    obtain ⟨hid, before, behind, rfl, hbefore⟩ := List.find?_eq_some_iff_append.mp hfind
    refine ⟨wide, ⟨before, extraBlock behind ++ rest, by simp, fun f hf => ⟨?_, ?_⟩, ?_, ?_⟩, rfl⟩
    · exact hfs f (by simp [hf])
    · simpa using hbefore f hf
    · exact hfs wide (by simp)
    · simpa using hid
  · rintro ⟨wide, hfirst, rfl⟩
    exact hfirst.wideSizes_eq hextra

/-! ## Wide sizes as they are written -/

section

variable {n k : Nat} {sizes : List Nat}

lemma isWideSize_iff : isWideSize n = true ↔ saturated ≤ n := by
  simp [isWideSize]

lemma narrow_eq_saturated_iff : narrow n = saturated ↔ isWideSize n = true := by
  rw [narrow, isWideSize_iff]
  omega

/-- Below the wide numbers a field holds the number itself. -/
lemma narrow_of_isWideSize (h : isWideSize n = false) : narrow n = n := by
  have hlt : ¬ saturated ≤ n := fun hle => by rw [isWideSize_iff.mpr hle] at h; cases h
  exact Nat.min_eq_left (Nat.le_of_not_le hlt)

/-- The first field of wide sizes in a block of extra fields begins with the given numbers. -/
def HoldsWide (extra : List UInt8) (sizes : List Nat) : Prop :=
  ∃ (before : List ExtraField) (more after : List UInt8),
    extra = extraBlock before
      ++ ((ExtraField.mk wideSizesId (fields (sizes.map fun n => (8, n)) ++ more)).bytes ++ after) ∧
    (∀ f ∈ before, f.id < 256 ^ 2 ∧ f.id ≠ wideSizesId) ∧ ∀ n ∈ sizes, n < 256 ^ 8

/-- A writer puts the wide sizes in front of all other extra fields. -/
lemma holdsWide_wideBlock (hne : sizes ≠ []) (hfit : ∀ n ∈ sizes, n < 256 ^ 8)
    (rest : List UInt8) : HoldsWide (wideBlock sizes ++ rest) sizes := by
  refine ⟨[], [], rest, ?_, nofun, hfit⟩
  rw [wideBlock, if_neg (by simpa using hne)]
  simp

lemma numbersIn_fields_append (sizes : List Nat) (more : List UInt8) :
    numbersIn (fields (sizes.map fun n => (8, n)) ++ more)
      = sizes.map (· % 256 ^ 8) ++ numbersIn more := by
  induction sizes with
  | nil => rfl
  | cons n sizes ih =>
    rw [List.map_cons, fields_cons, List.append_assoc, numbersIn_append (length_bytesOf 8 n),
      number_bytesOf, ih, List.map_cons, List.cons_append]

/-- The wide sizes of a block are the first numbers of its first field of wide sizes. -/
lemma HoldsWide.exists_firstWide (h : HoldsWide extra sizes) (hextra : extra.length < 256 ^ 2) :
    ∃ wide, FirstWide extra wide ∧ sizes <+: numbersIn wide.data := by
  obtain ⟨before, more, after, rfl, hbefore, hfit⟩ := h
  rw [List.length_append, List.length_append, length_bytes_extraField] at hextra
  -- a field is shorter than the block, so its length fits
  have hfits : ∀ f ∈ before, f.Fits ∧ f.id ≠ wideSizesId := by
    intro f hf
    obtain ⟨hid, hother⟩ := hbefore f hf
    have hle := length_bytes_le_extraBlock hf
    rw [length_bytes_extraField] at hle
    exact ⟨⟨hid, by omega⟩, hother⟩
  have hid : wideSizesId < 256 ^ 2 := by decide
  refine ⟨_, ⟨before, after, rfl, hfits, ⟨hid, by omega⟩, rfl⟩, numbersIn more, ?_⟩
  rw [numbersIn_fields_append, List.map_congr_left fun n hn => Nat.mod_eq_of_lt (hfit n hn),
    List.map_id']

lemma HoldsWide.getElem?_eq (h : HoldsWide extra sizes) (hextra : extra.length < 256 ^ 2)
    (hk : sizes[k]? = some n) :
    ∃ wide, FirstWide extra wide ∧ (numbersIn wide.data)[k]? = some n := by
  obtain ⟨wide, hfirst, hprefix⟩ := h.exists_firstWide hextra
  obtain ⟨hlt, hget⟩ := List.getElem?_eq_some_iff.mp hk
  exact ⟨wide, hfirst, hget ▸ List.prefix_iff_getElem?.mp hprefix k hlt⟩

/-- A number in the first field of wide sizes is found at its index. -/
lemma FirstWide.wideSize_eq (h : FirstWide extra wide) (hextra : extra.length < Numeral.signed64End)
    (hk : (numbersIn wide.data)[k]? = some n) (name : String) : wideSize name extra k = .ok n := by
  rw [wideSize, h.wideSizes_eq hextra]
  simp only [bind, Except.bind, Option.bind, hk]

/-- A size that has been written is found at its index. -/
lemma HoldsWide.wideSize_eq (h : HoldsWide extra sizes) (hextra : extra.length < 256 ^ 2)
    (hk : sizes[k]? = some n) (name : String) : wideSize name extra k = .ok n := by
  obtain ⟨wide, hfirst, hget⟩ := h.getElem?_eq hextra hk
  exact hfirst.wideSize_eq (Nat.lt_trans hextra (by decide)) hget name

end

/-! ## Main result -/

/-- **What the search for wide sizes finds.**  In a row of fields with up to three stray bytes behind
them it finds the numbers of the first field of wide sizes, if there is one.  Where a field overruns
the block and none of those in front of it is one of wide sizes, it finds nothing.  So whatever it
finds in a byte string are the whole numbers inside one field of it. -/
theorem wideSizes_spec (hextra : extra.length < Numeral.signed64End) :
    (∀ (fs : List ExtraField) (stray : List UInt8), extra = extraBlock fs ++ stray →
      (∀ f ∈ fs, f.Fits) → stray.length ≤ 3 →
      wideSizes extra
        = .ok ((fs.find? fun f => f.id = wideSizesId).map fun f => numbersIn f.data)) ∧
    (∀ (before : List ExtraField) (rest : List UInt8), extra = extraBlock before ++ rest →
      (∀ f ∈ before, f.Fits ∧ f.id ≠ wideSizesId) → Overruns rest →
      wideSizes extra = .ok none) ∧
    ∀ sizes, wideSizes extra = .ok (some sizes) ↔
      ∃ wide, FirstWide extra wide ∧ sizes = numbersIn wide.data := by
  refine ⟨?_, ?_, fun sizes => wideSizes_eq_some_iff hextra⟩
  · rintro fs stray rfl hfs hstray
    exact wideSizes_extraBlock_append hextra hfs (.inl (by omega))
  · rintro before rest rfl hbefore hover
    have hnone : before.find? (fun f => f.id = wideSizesId) = none := by
      rw [List.find?_eq_none]
      intro f hf
      simpa using (hbefore f hf).2
    rw [wideSizes_extraBlock_append hextra (fun f hf => (hbefore f hf).1) (.inr hover), hnone]
    rfl

/-- Two numbers and three more bytes in the second field, behind which stands a second field of wide
sizes; and a field of wide sizes that tells one byte more than there is. -/
theorem wideSizes_spec_sample :
    wideSizes (extraBlock [⟨0xCAFE, [5]⟩,
        ⟨wideSizesId, fields [(8, 7), (8, 2 ^ 40 + 9)] ++ [1, 2, 3]⟩, ⟨wideSizesId, []⟩] ++ [1, 0, 0])
      = .ok (some [7, 2 ^ 40 + 9]) ∧
    wideSizes (extraBlock [⟨0xCAFE, [5]⟩] ++ [1, 0, 9, 0, 7, 0, 0, 0, 0, 0, 0, 0]) = .ok none := by
  constructor
  · refine ((wideSizes_spec (by decide)).1 _ _ rfl ?_ (by decide)).trans (by decide +kernel)
    intro f hf
    simp only [List.mem_cons, List.not_mem_nil, or_false] at hf
    rcases hf with rfl | rfl | rfl <;> exact ⟨by decide, by decide⟩
  · refine (wideSizes_spec (by decide)).2.1 [⟨0xCAFE, [5]⟩] _ rfl ?_ (by decide +kernel)
    intro f hf
    obtain rfl := List.mem_singleton.mp hf
    exact ⟨⟨by decide, by decide⟩, by decide⟩

end FleetAgent.Archive
