/-
# Spelled records

Which documents have the fields of a record, and with which values (`HasFields`).  A document is a
row of pieces that make up an array of as many values as there are fields, or an object with exactly
one member for each of them.  Nothing is asked of what other members hold but that it is a value
(`IsValue`).

The reader finds the fields exactly in these documents (`fields?_eq_some_iff`).  That the pieces
make up a value is checked by a machine; the pieces read so far are those by which the open
containers have been opened and filled, with what may be in progress (`Outline.Consumed`).  The
values are then found at the commas outside of containers: a value is passed as a whole (`Passes`).
-/
import FleetAgent.Proofs.Json.Piece
import FleetAgent.Proofs.Text.Pieces

namespace FleetAgent.Json

/-! ## Values and records -/

/-- Parts with commas between them. -/
def listed (parts : List (List Piece)) : List Piece :=
  [Piece.mark ','].intercalate parts

/-- A member of an object: its name as it is written, and the pieces of its value. -/
structure WrittenMember where
  name : List (Option Char)
  value : List Piece

/-- The pieces of a member. -/
def WrittenMember.pieces (m : WrittenMember) : List Piece :=
  .text m.name :: .mark ':' :: m.value

/-- Pieces that make up a value. -/
inductive IsValue : List Piece → Prop where
  | text (w : List (Option Char)) : IsValue [.text w]
  | plain (s : List Char) : IsValue [.plain s]
  | array (values : List (List Piece)) (h : ∀ v ∈ values, IsValue v) :
      IsValue (.mark '[' :: listed values ++ [.mark ']'])
  | object (members : List WrittenMember) (h : ∀ m ∈ members, IsValue m.value) :
      IsValue (.mark '\x7b' :: listed (members.map WrittenMember.pieces) ++ [.mark '\x7d'])

/-- What is written between two quotation marks spells a text. -/
def Spells (w : List (Option Char)) (s : String) : Prop :=
  ∃ cs, w = cs.map some ∧ IsText cs s.toList

/-- A member, with its name as it is written, has this name and this value. -/
def WrittenMember.Has (m : WrittenMember) (x : String × List Piece) : Prop :=
  Spells m.name x.1 ∧ x.2 = m.value

/-- Exactly one member has a name, and its value is this one. -/
def HasOnce (members : List (String × List Piece)) (name : String) (value : List Piece) : Prop :=
  ∃ front behind, members = front ++ (name, value) :: behind ∧ ∀ m ∈ front ++ behind, m.1 ≠ name

/-- The pieces of a record, and the values of its fields in the order of their names. -/
inductive IsRecord (names : List String) : List Piece → List (List Piece) → Prop where
  /-- An array of just these values. -/
  | array (values : List (List Piece)) (h : ∀ v ∈ values, IsValue v)
      (hlength : values.length = names.length) :
      IsRecord names (.mark '[' :: listed values ++ [.mark ']']) values
  /-- An object, possibly with other members. -/
  | object (written : List WrittenMember) (h : ∀ m ∈ written, IsValue m.value)
      (members : List (String × List Piece))
      (hmembers : List.Forall₂ WrittenMember.Has written members)
      (values : List (List Piece)) (hvalues : List.Forall₂ (HasOnce members) names values) :
      IsRecord names
        (.mark '\x7b' :: listed (written.map WrittenMember.pieces) ++ [.mark '\x7d']) values

/-- A document has the fields of a record with some values. -/
def HasFields (names : List String) (document : List UInt8) (values : List (List Piece)) : Prop :=
  ∃ ps, Piece.Row (Text.Utf8.pieces document) ps ∧ IsRecord names ps values

/-! ## Rows with commas -/

section

variable {part : List Piece} {parts : List (List Piece)}

/-- Parts, each with the comma behind it. -/
def beforeNext (parts : List (List Piece)) : List Piece :=
  parts.flatMap fun part => part ++ [.mark ',']

lemma listed_cons (hne : parts ≠ []) :
    listed (part :: parts) = part ++ .mark ',' :: listed parts := by
  obtain ⟨next, rest, rfl⟩ := List.exists_cons_of_ne_nil hne
  rw [listed, List.intercalate_cons_cons, List.append_assoc]
  rfl

lemma beforeNext_append (parts : List (List Piece)) (part : List Piece) :
    beforeNext parts ++ part = listed (parts ++ [part]) := by
  induction parts with
  | nil => simp [beforeNext, listed]
  | cons first parts ih =>
    rw [List.cons_append, listed_cons (List.concat_ne_nil _ _), ← ih]
    simp [beforeNext]

lemma beforeNext_concat (parts : List (List Piece)) (part : List Piece) :
    beforeNext (parts ++ [part]) = beforeNext parts ++ part ++ [.mark ','] := by
  simp [beforeNext]

/-- Parts begin with the first of them. -/
lemma exists_listed_eq (p : Piece) (part : List Piece) (parts : List (List Piece)) :
    ∃ tail, listed ((p :: part) :: parts) = p :: tail := by
  by_cases hne : parts = []
  · exact ⟨part, by simp [hne, listed]⟩
  · exact ⟨_, by rw [listed_cons hne]; rfl⟩

end

/-! ## Words and numbers are apart -/

section

variable {c : Char} {ps qs : List Piece} {parts : List (List Piece)}

lemma Piece.Apart.cons_mark (h : Piece.Apart ps) : Piece.Apart (.mark c :: ps) := by
  cases ps with
  | nil => exact .singleton _
  | cons p ps => exact .cons_cons (fun hmark => by cases hmark) h

lemma Piece.Apart.append_mark (h : Piece.Apart ps) (hqs : Piece.Apart qs) :
    Piece.Apart (ps ++ .mark c :: qs) := by
  refine List.isChain_append.mpr ⟨h, hqs.cons_mark, ?_⟩
  rintro p - q hq -
  obtain rfl := Option.some.inj hq
  rfl

lemma apart_listed (h : ∀ part ∈ parts, Piece.Apart part) : Piece.Apart (listed parts) := by
  induction parts with
  | nil => exact .nil
  | cons part parts ih =>
    obtain ⟨hpart, hparts⟩ := List.forall_mem_cons.mp h
    by_cases hne : parts = []
    · subst hne
      rw [listed, List.intercalate_singleton]
      exact hpart
    · rw [listed_cons hne]
      exact hpart.append_mark (ih hparts)

lemma IsValue.apart (h : IsValue ps) : Piece.Apart ps := by
  induction h with
  | text | plain => exact .singleton _
  | array values h ih => exact (apart_listed ih).cons_mark.append_mark .nil
  | object members h ih =>
    refine Piece.Apart.append_mark (.cons_mark (apart_listed ?_)) .nil
    intro part hpart
    obtain ⟨m, hm, rfl⟩ := List.mem_map.mp hpart
    exact .cons_cons nofun (ih m hm).cons_mark

end

/-! ## Values are recognised -/

namespace Outline

variable {stack : List Container} {ps : List Piece} {p : Piece} {s s' : State}

/-- Parts are read one behind the other, if each of them is. -/
lemma foldlM_listed {parts : List (List Piece)} {kind : Container} (hne : parts ≠ [])
    (hcomma : step? ⟨kind :: stack, .after⟩ (.mark ',') = some s)
    (h : ∀ part ∈ parts, part.foldlM step? s = some ⟨kind :: stack, .after⟩) :
    (listed parts).foldlM step? s = some ⟨kind :: stack, .after⟩ := by
  induction parts with
  | nil => exact absurd rfl hne
  | cons part parts ih =>
    obtain ⟨hpart, hparts⟩ := List.forall_mem_cons.mp h
    by_cases hrest : parts = []
    · subst hrest
      rw [listed, List.intercalate_singleton]
      exact hpart
    · rw [listed_cons hrest, List.foldlM_append, hpart, Option.bind_eq_bind, Option.bind_some,
        List.foldlM_cons, hcomma]
      exact ih hrest hparts

/-- No value begins with the end of an array. -/
lemma exists_cons_of_isValue (h : IsValue ps) : ∃ p rest, ps = p :: rest ∧ p ≠ .mark ']' := by
  cases h with
  | text | plain => exact ⟨_, _, rfl, nofun⟩
  | array | object => exact ⟨_, _, rfl, by decide⟩

/-- The first value of an array is read as every other one. -/
lemma foldlM_itemOrEnd {values : List (List Piece)} (h : ∀ v ∈ values, IsValue v)
    (hne : values ≠ []) :
    (listed values).foldlM step? ⟨stack, .itemOrEnd⟩ =
      (listed values).foldlM step? ⟨stack, .value⟩ := by
  obtain ⟨v, others, rfl⟩ := List.exists_cons_of_ne_nil hne
  obtain ⟨p, rest, rfl, hp⟩ := exists_cons_of_isValue (h v List.mem_cons_self)
  obtain ⟨tail, htail⟩ := exists_listed_eq p rest others
  have hstep : step? ⟨stack, .itemOrEnd⟩ p = step? ⟨stack, .value⟩ p := if_neg hp
  rw [htail, List.foldlM_cons, List.foldlM_cons, hstep]

/-- The first member of an object is read as every other one. -/
lemma foldlM_nameOrEnd {members : List WrittenMember} (hne : members ≠ []) :
    (listed (members.map WrittenMember.pieces)).foldlM step? ⟨stack, .nameOrEnd⟩ =
      (listed (members.map WrittenMember.pieces)).foldlM step? ⟨stack, .name⟩ := by
  obtain ⟨m, others, rfl⟩ := List.exists_cons_of_ne_nil hne
  obtain ⟨tail, htail⟩ :=
    exists_listed_eq (.text m.name) (.mark ':' :: m.value) (others.map WrittenMember.pieces)
  rw [List.map_cons, WrittenMember.pieces, htail]
  rfl

/-- The pieces of a value are read wherever a value may begin. -/
lemma foldlM_value (h : IsValue ps) (stack : List Container) :
    ps.foldlM step? ⟨stack, .value⟩ = some ⟨stack, .after⟩ := by
  induction h generalizing stack with
  | text | plain => rfl
  | array values h ih =>
    by_cases hne : values = []
    · subst hne
      rfl
    · have hread : (listed values).foldlM step? ⟨.array :: stack, .value⟩ =
          some ⟨.array :: stack, .after⟩ := foldlM_listed hne rfl fun v hv => ih v hv _
      have hopen : step? ⟨stack, .value⟩ (.mark '[') = some ⟨.array :: stack, .itemOrEnd⟩ := rfl
      rw [List.cons_append, List.foldlM_cons, hopen, Option.bind_eq_bind, Option.bind_some,
        List.foldlM_append, foldlM_itemOrEnd h hne, hread]
      rfl
  | object members h ih =>
    by_cases hne : members = []
    · subst hne
      rfl
    · have hmember : ∀ part ∈ members.map WrittenMember.pieces,
          part.foldlM step? ⟨.object :: stack, .name⟩ = some ⟨.object :: stack, .after⟩ := by
        intro part hpart
        obtain ⟨m, hm, rfl⟩ := List.mem_map.mp hpart
        exact ih m hm _
      have hread : (listed (members.map WrittenMember.pieces)).foldlM step?
          ⟨.object :: stack, .name⟩ = some ⟨.object :: stack, .after⟩ :=
        foldlM_listed (by simpa using hne) rfl hmember
      have hopen : step? ⟨stack, .value⟩ (.mark '\x7b') = some ⟨.object :: stack, .nameOrEnd⟩ := rfl
      rw [List.cons_append, List.foldlM_cons, hopen, Option.bind_eq_bind, Option.bind_some,
        List.foldlM_append, foldlM_nameOrEnd hne, hread]
      rfl

/-! ### What is recognised is a value -/

/-- The pieces by which containers have been opened and filled, the innermost container first. -/
inductive Opened : List Container → List Piece → Prop where
  | nil : Opened [] []
  | array {stack : List Container} {ps : List Piece} (h : Opened stack ps)
      (done : List (List Piece)) (hdone : ∀ v ∈ done, IsValue v) :
      Opened (.array :: stack) (ps ++ .mark '[' :: beforeNext done)
  | object {stack : List Container} {ps : List Piece} (h : Opened stack ps)
      (done : List WrittenMember) (name : List (Option Char))
      (hdone : ∀ m ∈ done, IsValue m.value) :
      Opened (.object :: stack)
        (ps ++ .mark '\x7b' :: beforeNext (done.map WrittenMember.pieces) ++
          [.text name, .mark ':'])

/-- The pieces that have been read. -/
inductive Consumed : List Piece → State → Prop where
  | value {stack : List Container} {ps : List Piece} (h : Opened stack ps) :
      Consumed ps ⟨stack, .value⟩
  | itemOrEnd {stack : List Container} {ps : List Piece} (h : Opened stack ps) :
      Consumed (ps ++ [.mark '[']) ⟨.array :: stack, .itemOrEnd⟩
  | name {stack : List Container} {ps : List Piece} (h : Opened stack ps)
      (done : List WrittenMember) (hdone : ∀ m ∈ done, IsValue m.value) :
      Consumed (ps ++ .mark '\x7b' :: beforeNext (done.map WrittenMember.pieces))
        ⟨.object :: stack, .name⟩
  | nameOrEnd {stack : List Container} {ps : List Piece} (h : Opened stack ps) :
      Consumed (ps ++ [.mark '\x7b']) ⟨.object :: stack, .nameOrEnd⟩
  | colon {stack : List Container} {ps : List Piece} (h : Opened stack ps)
      (done : List WrittenMember) (name : List (Option Char))
      (hdone : ∀ m ∈ done, IsValue m.value) :
      Consumed (ps ++ .mark '\x7b' :: beforeNext (done.map WrittenMember.pieces) ++ [.text name])
        ⟨.object :: stack, .colon⟩
  | after {stack : List Container} {ps : List Piece} (h : Opened stack ps) (v : List Piece)
      (hv : IsValue v) : Consumed (ps ++ v) ⟨stack, .after⟩

/-- Where a value may begin, one begins. -/
lemma Opened.value_step (h : Opened stack ps) (hstep : value? stack p = some s) :
    Consumed (ps ++ [p]) s := by
  cases p with
  | text w =>
    obtain rfl := Option.some.inj hstep
    exact .after h _ (.text w)
  | plain written =>
    obtain rfl := Option.some.inj hstep
    exact .after h _ (.plain written)
  | mark c =>
    dsimp only [value?] at hstep
    split_ifs at hstep with harray hobject
    · obtain rfl := Option.some.inj hstep
      subst harray
      exact .itemOrEnd h
    · obtain rfl := Option.some.inj hstep
      subst hobject
      exact .nameOrEnd h

/-- Where a name may begin, one begins. -/
lemma Opened.name_step (h : Opened stack ps) (done : List WrittenMember)
    (hdone : ∀ m ∈ done, IsValue m.value) (hstep : name? (.object :: stack) p = some s) :
    Consumed (ps ++ .mark '\x7b' :: beforeNext (done.map WrittenMember.pieces) ++ [p]) s := by
  cases p with
  | text w =>
    obtain rfl := Option.some.inj hstep
    exact .colon h done w hdone
  | plain | mark => cases hstep

/-- Behind a value, a container goes on or ends. -/
lemma Opened.after_step {v : List Piece} (h : Opened stack ps) (hv : IsValue v)
    (hstep : after? stack p = some s) : Consumed (ps ++ v ++ [p]) s := by
  cases h with
  | nil =>
    rw [after?] at hstep
    split_ifs at hstep <;> cases hstep
  | @array stack ps h done hdone =>
    have hall : ∀ w ∈ done ++ [v], IsValue w :=
      List.forall_mem_append.mpr ⟨hdone, List.forall_mem_singleton.mpr hv⟩
    rw [after?] at hstep
    split_ifs at hstep with harray hobject hcomma
    · obtain rfl := Option.some.inj hstep
      subst harray
      have hnext := Consumed.after h _ (.array _ hall)
      rw [← beforeNext_append] at hnext
      simpa only [List.append_assoc, List.cons_append] using hnext
    · cases hstep
    · obtain rfl := Option.some.inj hstep
      subst hcomma
      have hnext := Consumed.value (h.array _ hall)
      rw [beforeNext_concat] at hnext
      simpa only [List.append_assoc, List.cons_append] using hnext
  | @object stack ps h done name hdone =>
    have hall : ∀ m ∈ done ++ [⟨name, v⟩], IsValue m.value :=
      List.forall_mem_append.mpr ⟨hdone, List.forall_mem_singleton.mpr hv⟩
    rw [after?] at hstep
    split_ifs at hstep with harray hobject hcomma
    · cases hstep
    · obtain rfl := Option.some.inj hstep
      subst hobject
      have hnext := Consumed.after h _ (.object _ hall)
      rw [List.map_append, List.map_singleton, ← beforeNext_append] at hnext
      simpa only [WrittenMember.pieces, List.append_assoc, List.cons_append, List.nil_append]
        using hnext
    · obtain rfl := Option.some.inj hstep
      subst hcomma
      have hnext := Consumed.name h _ hall
      rw [List.map_append, List.map_singleton, beforeNext_concat] at hnext
      simpa only [WrittenMember.pieces, List.append_assoc, List.cons_append, List.nil_append]
        using hnext

/-- **Every piece continues what has been read.** -/
lemma Consumed.step (h : Consumed ps s) (hstep : step? s p = some s') :
    Consumed (ps ++ [p]) s' := by
  cases h with
  | value h => exact h.value_step hstep
  | @itemOrEnd stack ps h =>
    dsimp only [step?] at hstep
    split_ifs at hstep with hend
    · obtain rfl := Option.some.inj hstep
      subst hend
      rw [List.append_assoc]
      exact .after h _ (.array [] (List.forall_mem_nil _))
    · exact (h.array [] (List.forall_mem_nil _)).value_step hstep
  | name h done hdone => exact h.name_step done hdone hstep
  | @nameOrEnd stack ps h =>
    dsimp only [step?] at hstep
    split_ifs at hstep with hend
    · obtain rfl := Option.some.inj hstep
      subst hend
      rw [List.append_assoc]
      exact .after h _ (.object [] (List.forall_mem_nil _))
    · exact h.name_step [] (List.forall_mem_nil _) hstep
  | @colon stack ps h done name hdone =>
    dsimp only [step?] at hstep
    split_ifs at hstep with hcolon
    obtain rfl := Option.some.inj hstep
    subst hcolon
    have hnext := Consumed.value (h.object done name hdone)
    simpa only [List.append_assoc, List.cons_append, List.nil_append] using hnext
  | after h v hv => exact h.after_step hv hstep

end Outline

/-- **Values are recognised.** -/
lemma isValue_iff {ps : List Piece} : isValue ps = true ↔ IsValue ps := by
  rw [isValue, beq_iff_eq]
  constructor
  · intro h
    have hconsumed := foldlM_invariant Outline.Consumed.step (Outline.Consumed.value .nil) h
    rw [List.nil_append] at hconsumed
    cases hconsumed with
    | after h v hv =>
      cases h
      exact hv
  · exact fun h => Outline.foldlM_value h []

/-! ## Values are found -/

/-- Pieces are passed as a whole, at a depth of open containers. -/
def Passes (depth : Nat) (ps : List Piece) : Prop :=
  ∀ acc rest, parts depth acc (ps ++ rest) = parts depth (ps.reverse ++ acc) rest

section

variable {c : Char} {depth : Nat} {p : Piece} {ps qs : List Piece} {cut : List (List Piece)}

lemma Passes.append (h : Passes depth ps) (hqs : Passes depth qs) : Passes depth (ps ++ qs) := by
  intro acc rest
  rw [List.append_assoc, h, hqs, List.reverse_append, List.append_assoc]

/-- A piece that neither opens nor closes a container is passed, if it is no comma outside. -/
lemma passes_singleton (hdepth : p.depth depth = depth) (hcomma : ¬(depth = 0 ∧ p = .mark ',')) :
    Passes depth [p] := by
  intro acc rest
  rw [List.singleton_append, parts, if_neg hcomma, hdepth]
  rfl

/-- What is passed inside of a container is passed with it. -/
lemma Passes.container {first last : Piece} (h : Passes (depth + 1) ps)
    (hfirst : first.depth depth = depth + 1) (hlast : last.depth (depth + 1) = depth)
    (hne : first ≠ .mark ',') : Passes depth (first :: ps ++ [last]) := by
  intro acc rest
  rw [List.append_assoc, List.cons_append, parts, if_neg fun hcomma => hne hcomma.2, hfirst, h,
    List.singleton_append, parts, if_neg (by simp), hlast]
  simp

/-- Inside of a container commas are passed. -/
lemma passes_listed (h : ∀ part ∈ cut, Passes (depth + 1) part) :
    Passes (depth + 1) (listed cut) := by
  induction cut with
  | nil => exact fun _ _ => rfl
  | cons part cut ih =>
    obtain ⟨hpart, hcut⟩ := List.forall_mem_cons.mp h
    by_cases hne : cut = []
    · subst hne
      rw [listed, List.intercalate_singleton]
      exact hpart
    · have hcomma : Passes (depth + 1) [.mark ','] :=
        passes_singleton (by simp [Piece.depth]) (by simp)
      rw [listed_cons hne]
      exact hpart.append (hcomma.append (ih hcut))

/-- The name of a member and the colon are passed with its value. -/
lemma Passes.pieces {m : WrittenMember} (h : Passes depth m.value) : Passes depth m.pieces := by
  have hname : Passes depth [.text m.name] := passes_singleton rfl (by simp)
  have hcolon : Passes depth [.mark ':'] := passes_singleton (by simp [Piece.depth]) (by simp)
  exact hname.append (hcolon.append h)

/-- **A value is passed as a whole.** -/
lemma IsValue.passes (h : IsValue ps) (depth : Nat) : Passes depth ps := by
  induction h generalizing depth with
  | text | plain => exact passes_singleton rfl (by simp)
  | array values h ih =>
    exact (passes_listed fun v hv => ih v hv _).container (by simp [Piece.depth])
      (by simp [Piece.depth]) (by decide)
  | object members h ih =>
    have hmembers : ∀ part ∈ members.map WrittenMember.pieces, Passes (depth + 1) part := by
      intro part hpart
      obtain ⟨m, hm, rfl⟩ := List.mem_map.mp hpart
      exact (ih m hm _).pieces
    exact (passes_listed hmembers).container (by simp [Piece.depth]) (by simp [Piece.depth])
      (by decide)

/-- The parts are found at the commas between them. -/
lemma parts_listed (hne : cut ≠ []) (h : ∀ part ∈ cut, Passes 0 part) :
    parts 0 [] (listed cut) = cut := by
  induction cut with
  | nil => exact absurd rfl hne
  | cons part cut ih =>
    obtain ⟨hpart, hcut⟩ := List.forall_mem_cons.mp h
    by_cases hrest : cut = []
    · subst hrest
      have hall := hpart [] []
      rw [List.append_nil] at hall
      rw [listed, List.intercalate_singleton, hall, parts]
      simp
    · rw [listed_cons hrest, hpart, parts, if_pos ⟨rfl, rfl⟩, ih hrest hcut]
      simp

/-- The contents of a container are its parts. -/
lemma contents_listed (h : ∀ part ∈ cut, Passes 0 part ∧ part ≠ []) (last : Piece) :
    contents (listed cut ++ [last]) = cut := by
  rw [contents, List.dropLast_concat]
  cases cut with
  | nil => rfl
  | cons part cut =>
    obtain ⟨p, ps, rfl⟩ := List.exists_cons_of_ne_nil (h part List.mem_cons_self).2
    obtain ⟨tail, htail⟩ := exists_listed_eq p ps cut
    rw [htail]
    dsimp only
    rw [← htail]
    exact parts_listed (List.cons_ne_nil _ _) fun part hpart => (h part hpart).1

lemma IsValue.ne_nil (h : IsValue ps) : ps ≠ [] := by
  cases h <;> exact List.cons_ne_nil _ _

end

/-! ## Names and fields -/

section

variable {w : List (Option Char)} {s : String} {ps : List Piece}

/-- A row without tokens is made of spaces. -/
lemma Row.isSpace {cs : List Char} (h : Row cs []) : ∀ c ∈ cs, IsSpace c := by
  generalize hts : ([] : List Token) = ts at h
  induction h with
  | nil => exact List.forall_mem_nil _
  | space h hc ih => exact List.forall_mem_append.mpr ⟨ih hts, List.forall_mem_singleton.mpr hc⟩
  | token h ht ih => simp at hts

/-- A row of one token is that token between spaces. -/
lemma Row.exists_singleton {cs : List Char} {t : Token} (h : Row cs [t]) :
    ∃ front ds behind, cs = front ++ ds ++ behind ∧ t.IsSpelled ds ∧
      ∀ c ∈ front ++ behind, IsSpace c := by
  generalize hts : [t] = ts at h
  induction h with
  | nil => cases hts
  | @space cs ts h c hc ih =>
    obtain ⟨front, ds, behind, rfl, ht, hspace⟩ := ih hts
    refine ⟨front, ds, behind ++ [c], by simp, ht, ?_⟩
    rw [← List.append_assoc]
    exact List.forall_mem_append.mpr ⟨hspace, List.forall_mem_singleton.mpr hc⟩
  | @token cs ts h u ds hu ih =>
    obtain ⟨rfl, rfl⟩ : ts = [] ∧ u = t := by simpa using List.singleton_eq_append_iff.mp hts
    exact ⟨cs, ds, [], by simp, hu, by simpa using h.isSpace⟩

/-- A quotation mark is no space. -/
lemma not_isSpace_quote : ¬IsSpace '"' := by
  rw [IsSpace]
  decide

/-- A text is read between its quotation marks. -/
lemma ofChars?_quoted_iff {cs : List Char} :
    Token.ofChars? ('"' :: cs ++ ['"']) = some [.string s] ↔ IsText cs s.toList := by
  constructor
  · intro h
    obtain ⟨front, ds, behind, hcs, ht, hspace⟩ := (Token.row_of_ofChars? h).1.exists_singleton
    obtain ⟨hfront, hbehind⟩ := List.forall_mem_append.mp hspace
    cases ht with
    | string body text htext =>
      -- both ends are quotation marks, and so no spaces are around the text
      obtain rfl : front = [] := by
        cases front with
        | nil => rfl
        | cons c front =>
          obtain ⟨rfl, -⟩ := List.cons.inj hcs
          exact absurd (hfront _ List.mem_cons_self) not_isSpace_quote
      obtain rfl : behind = [] := by
        rcases List.eq_nil_or_concat behind with rfl | ⟨behind, c, rfl⟩
        · rfl
        · rw [List.concat_eq_append, ← List.append_assoc] at hcs
          obtain rfl : '"' = c := List.singleton_inj.mp (List.append_inj_right' hcs rfl)
          exact absurd (hbehind _ (by simp)) not_isSpace_quote
      rw [List.nil_append, List.append_nil, List.cons_append, List.cons_append,
        List.cons_inj_right, List.append_left_inj] at hcs
      rw [hcs, String.toList_ofList]
      exact htext
  · intro h
    have hspelled : (Token.string s).IsSpelled ('"' :: cs ++ ['"']) := by
      have hstring := Token.IsSpelled.string cs s.toList h
      rw [String.ofList_toList] at hstring
      exact hstring
    exact Token.ofChars?_of_row (Row.nil.token hspelled) (.singleton _) (by simp)

lemma writtenText?_eq_some_iff : writtenText? w = some s ↔ Spells w s := by
  have hread (cs : List Char) : w.mapM id = some cs ↔ w = cs.map some := by
    rw [Text.mapM_eq_some_iff, List.map_id]
  rw [writtenText?, Spells]
  constructor
  · intro h
    split at h
    · next text htext =>
      obtain rfl := Option.some.inj h
      obtain ⟨cs, hcs, htoken⟩ := Option.bind_eq_some_iff.mp htext
      exact ⟨cs, (hread cs).mp hcs, ofChars?_quoted_iff.mp htoken⟩
    · cases h
  · rintro ⟨cs, hcs, htext⟩
    rw [(hread cs).mpr hcs, Option.bind_some, ofChars?_quoted_iff.mpr htext]

lemma text?_eq_some_iff : text? ps = some s ↔ ∃ w, ps = [.text w] ∧ Spells w s := by
  rw [text?.eq_def]
  split
  · next w => simp [writtenText?_eq_some_iff]
  · next hnot =>
    refine iff_of_false nofun ?_
    rintro ⟨w, rfl, -⟩
    exact hnot w rfl

lemma member?_eq_some_iff {m : WrittenMember} {x : String × List Piece} :
    member? m.pieces = some x ↔ m.Has x := by
  obtain ⟨name, value⟩ := x
  rw [WrittenMember.pieces, member?, Option.map_eq_some_iff, WrittenMember.Has]
  constructor
  · rintro ⟨text, htext, hx⟩
    obtain ⟨rfl, rfl⟩ := Prod.mk.inj hx
    exact ⟨writtenText?_eq_some_iff.mp htext, rfl⟩
  · rintro ⟨hname, rfl⟩
    exact ⟨name, writtenText?_eq_some_iff.mpr hname, rfl⟩

/-- The value that is looked up is the only one, if no name is repeated. -/
lemma lookup_eq_some_iff {members : List (String × List Piece)} {name : String}
    {value : List Piece} :
    members.countP (·.1 == name) ≤ 1 ∧ members.lookup name = some value ↔
      HasOnce members name value := by
  have hcount (l : List (String × List Piece)) :
      l.countP (·.1 == name) = 0 ↔ ∀ m ∈ l, m.1 ≠ name := by
    simp [List.countP_eq_zero]
  rw [List.lookup_eq_some_iff, HasOnce]
  constructor
  · rintro ⟨hone, front, behind, rfl, hfront⟩
    rw [List.countP_append, List.countP_cons_of_pos (by simp)] at hone
    refine ⟨front, behind, rfl, List.forall_mem_append.mpr ⟨?_, ?_⟩⟩
    · exact (hcount front).mp (by omega)
    · exact (hcount behind).mp (by omega)
  · rintro ⟨front, behind, rfl, hother⟩
    obtain ⟨hfront, hbehind⟩ := List.forall_mem_append.mp hother
    refine ⟨?_, front, behind, rfl, fun m hm => by simpa using (hfront m hm).symm⟩
    rw [List.countP_append, List.countP_cons_of_pos (by simp), (hcount front).mpr hfront,
      (hcount behind).mpr hbehind]

lemma mapM_eq_some_iff_forall₂ {α β : Type} {f : α → Option β} {xs : List α} {ys : List β} :
    xs.mapM f = some ys ↔ List.Forall₂ (fun x y => f x = some y) xs ys := by
  rw [Text.mapM_eq_some_iff, ← List.forall₂_eq_eq_eq, List.forall₂_map_left_iff,
    List.forall₂_map_right_iff]

lemma fieldsIn?_eq_some_iff {names : List String} {written : List WrittenMember}
    {values : List (List Piece)} :
    fieldsIn? names (written.map WrittenMember.pieces) = some values ↔
      ∃ members, List.Forall₂ WrittenMember.Has written members ∧
        List.Forall₂ (HasOnce members) names values := by
  have hread (members : List (String × List Piece)) :
      (written.map WrittenMember.pieces).mapM member? = some members ↔
        List.Forall₂ WrittenMember.Has written members := by
    simp only [mapM_eq_some_iff_forall₂, List.forall₂_map_left_iff, member?_eq_some_iff]
  have hfound (members : List (String × List Piece)) :
      ((names.all fun name => members.countP (·.1 == name) ≤ 1) ∧
        names.mapM (fun name => members.lookup name) = some values) ↔
          List.Forall₂ (HasOnce members) names values := by
    simp only [mapM_eq_some_iff_forall₂, List.all_eq_true, decide_eq_true_eq,
      ← List.forall₂_and_left, lookup_eq_some_iff]
  simp only [fieldsIn?, Option.bind_eq_bind, Option.bind_eq_some_iff, hread,
    Option.ite_none_right_eq_some, hfound]

end

/-! ## Main result -/

section

variable {names : List String} {document : List UInt8} {ps : List Piece}
  {values : List (List Piece)} {written : List WrittenMember}

/-- A record is a value. -/
lemma IsRecord.isValue (h : IsRecord names ps values) : IsValue ps := by
  cases h with
  | array _ h => exact .array _ h
  | object written h => exact .object written h

/-- In an array the fields are the values in their order. -/
lemma fields?_of_array (h : ∀ v ∈ values, IsValue v)
    (hps : Piece.ofBytes? document = some (.mark '[' :: listed values ++ [.mark ']'])) :
    fields? names document = if values.length = names.length then some values else none := by
  have hcontents : contents (listed values ++ [.mark ']']) = values :=
    contents_listed (fun v hv => ⟨(h v hv).passes 0, (h v hv).ne_nil⟩) _
  have hvalue := isValue_iff.mpr (.array values h)
  rw [List.cons_append] at hps hvalue
  simp only [fields?, hps, Option.bind_eq_bind, Option.bind_some, hvalue, if_true, hcontents]

/-- In an object the fields are looked up by their names. -/
lemma fields?_of_object (h : ∀ m ∈ written, IsValue m.value)
    (hps : Piece.ofBytes? document =
      some (.mark '\x7b' :: listed (written.map WrittenMember.pieces) ++ [.mark '\x7d'])) :
    fields? names document = fieldsIn? names (written.map WrittenMember.pieces) := by
  have hcontents : contents (listed (written.map WrittenMember.pieces) ++ [.mark '\x7d']) =
      written.map WrittenMember.pieces := by
    refine contents_listed (fun part hpart => ?_) _
    obtain ⟨m, hm, rfl⟩ := List.mem_map.mp hpart
    exact ⟨((h m hm).passes 0).pieces, List.cons_ne_nil _ _⟩
  have hvalue := isValue_iff.mpr (.object written h)
  rw [List.cons_append] at hps hvalue
  simp only [fields?, hps, Option.bind_eq_bind, Option.bind_some, hvalue, if_true, hcontents]

/-- The fields are found in the pieces of a value only. -/
lemma exists_pieces_of_fields? (h : fields? names document = some values) :
    ∃ ps, Piece.ofBytes? document = some ps ∧ IsValue ps := by
  obtain ⟨ps, hps, hfields⟩ := Option.bind_eq_some_iff.mp h
  split_ifs at hfields with hvalue
  exact ⟨ps, hps, isValue_iff.mp hvalue⟩

/-- **Records.**  The fields of a record are found in a document, with their values, exactly if the
document has these fields and values. -/
theorem fields?_eq_some_iff : fields? names document = some values ↔
    HasFields names document values := by
  constructor
  · intro h
    obtain ⟨ps, hps, hvalue⟩ := exists_pieces_of_fields? h
    refine ⟨ps, Piece.row_of_ofBytes? hps, ?_⟩
    cases hvalue with
    | text | plain => simp [fields?, hps] at h
    | array items hitems =>
      rw [fields?_of_array hitems hps] at h
      split_ifs at h with hlength
      obtain rfl := Option.some.inj h
      exact .array items hitems hlength
    | object written hwritten =>
      rw [fields?_of_object hwritten hps] at h
      obtain ⟨members, hmembers, hvalues⟩ := fieldsIn?_eq_some_iff.mp h
      exact .object written hwritten members hmembers values hvalues
  · rintro ⟨ps, hrow, hrecord⟩
    have hps := Piece.ofBytes?_of_row hrow hrecord.isValue.apart
    cases hrecord with
    | array items hitems hlength => rw [fields?_of_array hitems hps, if_pos hlength]
    | object written hwritten members hmembers values hvalues =>
      rw [fields?_of_object hwritten hps]
      exact fieldsIn?_eq_some_iff.mpr ⟨members, hmembers, hvalues⟩

/-- What another member holds may be out of range, and have no meaning. -/
example : fields? ["uri"]
    (Text.Utf8.encode "\x7b\"size\": [1e999, \"\\ud800\"], \"uri\": \"a\"\x7d") =
      some [[.text [some 'a']]] := by
  decide +kernel

end

end FleetAgent.Json
