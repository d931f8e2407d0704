/-
# Documents

A text is a document of a value if it is a row of the value's tokens (`IsDocument`).  The reader
finds a value exactly in its documents, as long as no more than `maxDepth` containers are nested and
the numbers are in range (`Value.ofString?_eq_some_iff`).

That it takes nothing else is an invariant of the machine: the tokens read so far are those of the
open containers, with what these hold, and of the value in progress (`Consumed`).
-/
import FleetAgent.Proofs.Json.Reader
import FleetAgent.Proofs.Json.Spelling

namespace FleetAgent.Json

/-- A text is a document of a value. -/
def IsDocument (text : String) (v : Value) : Prop :=
  Row text.toList v.tokens

/-- Containers are nested at most `depth` deep. -/
inductive Value.Nested : Nat → Value → Prop where
  | null (depth : Nat) : Nested depth .null
  | bool (depth : Nat) (b : Bool) : Nested depth (.bool b)
  | number (depth : Nat) (n : Number) : Nested depth (.number n)
  | string (depth : Nat) (s : String) : Nested depth (.string s)
  | array (depth : Nat) (items : List Value) (h : ∀ v ∈ items, Nested depth v) :
      Nested (depth + 1) (.array items)
  | object (depth : Nat) (members : List (String × Value)) (h : ∀ m ∈ members, Nested depth m.2) :
      Nested (depth + 1) (.object members)

/-- A document of a value within the limits of the reader. -/
structure IsAdmitted (text : String) (v : Value) : Prop where
  document : IsDocument text v
  nested : v.Nested maxDepth
  inRange : ∀ n, .number n ∈ v.tokens → n.inRange = true

/-! ## Tokens of values -/

namespace Value

/-- The tokens of items, each with the comma behind it. -/
def itemsBefore (items : List Value) : List Token :=
  items.flatMap fun v => v.tokens ++ [.comma]

/-- The tokens of members, each with the comma behind it. -/
def membersBefore (members : List (String × Value)) : List Token :=
  members.flatMap fun m => .string m.1 :: .colon :: m.2.tokens ++ [.comma]

lemma itemsTokens_concat (items : List Value) (v : Value) :
    itemsTokens (items ++ [v]) = itemsBefore items ++ (v.tokens ++ [.closeArray]) := by
  induction items with
  | nil => rfl
  | cons w items ih =>
    rw [List.cons_append, itemsTokens, ih]
    · simp [itemsBefore, List.append_assoc]
    · exact List.concat_ne_nil v items

lemma membersTokens_concat (members : List (String × Value)) (name : String) (v : Value) :
    membersTokens (members ++ [(name, v)]) =
      membersBefore members ++ (.string name :: .colon :: v.tokens ++ [.closeObject]) := by
  induction members with
  | nil => rfl
  | cons m members ih =>
    rw [List.cons_append, membersTokens, ih]
    · simp [membersBefore, List.append_assoc]
    · exact List.concat_ne_nil _ members

lemma itemsBefore_concat (items : List Value) (v : Value) :
    itemsBefore (items ++ [v]) = itemsBefore items ++ (v.tokens ++ [.comma]) := by
  simp [itemsBefore]

lemma membersBefore_concat (members : List (String × Value)) (name : String) (v : Value) :
    membersBefore (members ++ [(name, v)]) =
      membersBefore members ++ (.string name :: .colon :: v.tokens ++ [.comma]) := by
  simp [membersBefore]

/-- The tokens of an item are tokens of the array. -/
lemma mem_itemsTokens {items : List Value} {v : Value} {t : Token} (hv : v ∈ items)
    (ht : t ∈ v.tokens) : t ∈ itemsTokens items := by
  induction items with
  | nil => cases hv
  | cons w items ih =>
    cases items with
    | nil =>
      obtain rfl := List.mem_singleton.mp hv
      exact List.mem_append_left _ ht
    | cons u items =>
      rw [itemsTokens]
      · rcases List.mem_cons.mp hv with rfl | hv
        · exact List.mem_append_left _ ht
        · exact List.mem_append_right _ (List.mem_cons_of_mem _ (ih hv))
      · exact List.cons_ne_nil u items

/-- The tokens of a member's value are tokens of the object. -/
lemma mem_membersTokens {members : List (String × Value)} {m : String × Value} {t : Token}
    (hm : m ∈ members) (ht : t ∈ m.2.tokens) : t ∈ membersTokens members := by
  induction members with
  | nil => cases hm
  | cons w members ih =>
    obtain ⟨name, v⟩ := w
    cases members with
    | nil =>
      obtain rfl := List.mem_singleton.mp hm
      exact List.mem_cons_of_mem _ (List.mem_cons_of_mem _ (List.mem_append_left _ ht))
    | cons u members =>
      rw [membersTokens]
      · refine List.mem_cons_of_mem _ (List.mem_cons_of_mem _ ?_)
        rcases List.mem_cons.mp hm with rfl | hm
        · exact List.mem_append_left _ ht
        · exact List.mem_append_right _ (List.mem_cons_of_mem _ (ih hm))
      · exact List.cons_ne_nil u members

/-- A value without deep containers is read back if its numbers are. -/
lemma Nested.readable {depth : Nat} {v : Value} (h : v.Nested depth)
    (hnumbers : ∀ n, .number n ∈ v.tokens → n.Readable) : v.Readable depth := by
  induction h with
  | null depth => exact .null depth
  | bool depth b => exact .bool depth b
  | number depth n => exact .number depth n (hnumbers n (List.mem_singleton_self _))
  | string depth s => exact .string depth s
  | array depth items h ih =>
    refine .array depth items fun v hv => ih v hv fun n hn => hnumbers n ?_
    exact List.mem_cons_of_mem _ (mem_itemsTokens hv hn)
  | object depth members h ih =>
    refine .object depth members fun m hm => ih m hm fun n hn => hnumbers n ?_
    exact List.mem_cons_of_mem _ (mem_membersTokens hm hn)

end Value

/-! ## Words and numbers are apart -/

lemma apart_cons {t : Token} {ts : List Token}
    (h : t.isOpen = true → ∀ u, ts.head? = some u → u.isOpen = false) (hts : Apart ts) :
    Apart (t :: ts) := by
  cases ts with
  | nil => exact .singleton t
  | cons u ts => exact .cons_cons (fun ht => h ht u rfl) hts

lemma apart_cons_mark {t : Token} {ts : List Token} (h : t.isOpen = false) (hts : Apart ts) :
    Apart (t :: ts) := by
  refine apart_cons (fun ht => ?_) hts
  rw [h] at ht
  cases ht

/-- Words and numbers are apart in some tokens, and in all that go on with anything else. -/
def Closed (ts : List Token) : Prop :=
  ∀ rest, (∀ u, rest.head? = some u → u.isOpen = false) → Apart rest → Apart (ts ++ rest)

section

variable {t : Token} {ts us : List Token}

lemma closed_singleton (t : Token) : Closed [t] :=
  fun _ hhead hrest => apart_cons (fun _ => hhead) hrest

lemma Closed.cons (h : Closed ts) (ht : t.isOpen = false) : Closed (t :: ts) :=
  fun rest hhead hrest => apart_cons_mark ht (h rest hhead hrest)

lemma Closed.append_mark (h : Closed ts) (hus : Closed (t :: us)) (ht : t.isOpen = false) :
    Closed (ts ++ t :: us) := by
  intro rest hhead hrest
  rw [List.append_assoc]
  refine h _ ?_ (hus rest hhead hrest)
  intro u hu
  obtain rfl : t = u := Option.some.inj hu
  exact ht

lemma Closed.apart (h : Closed ts) : Apart ts := by
  have happend := h [] nofun .nil
  rw [List.append_nil] at happend
  exact happend

lemma closed_itemsTokens {items : List Value} (h : ∀ v ∈ items, Closed v.tokens) :
    Closed (Value.itemsTokens items) := by
  induction items with
  | nil => exact closed_singleton _
  | cons v items ih =>
    obtain ⟨hv, hitems⟩ := List.forall_mem_cons.mp h
    cases items with
    | nil => exact hv.append_mark (closed_singleton _) rfl
    | cons w items =>
      rw [Value.itemsTokens]
      · exact hv.append_mark ((ih hitems).cons rfl) rfl
      · exact List.cons_ne_nil w items

lemma closed_membersTokens {members : List (String × Value)}
    (h : ∀ m ∈ members, Closed m.2.tokens) : Closed (Value.membersTokens members) := by
  induction members with
  | nil => exact closed_singleton _
  | cons m members ih =>
    obtain ⟨name, v⟩ := m
    obtain ⟨hv, hmembers⟩ := List.forall_mem_cons.mp h
    cases members with
    | nil => exact ((hv.append_mark (closed_singleton _) rfl).cons rfl).cons rfl
    | cons w members =>
      rw [Value.membersTokens]
      · exact ((hv.append_mark ((ih hmembers).cons rfl) rfl).cons rfl).cons rfl
      · exact List.cons_ne_nil w members

lemma Value.Nested.closed {depth : Nat} {v : Value} (h : v.Nested depth) : Closed v.tokens := by
  induction h with
  | null | bool | number | string => exact closed_singleton _
  | array depth items h ih => exact (closed_itemsTokens ih).cons rfl
  | object depth members h ih => exact (closed_membersTokens ih).cons rfl

end

/-! ## What is read is a document -/

namespace Reader

/-- The tokens by which containers have been opened and filled, the innermost container first.  What
they hold leaves room for the containers around it. -/
inductive Opened : List Frame → List Token → Prop where
  | nil : Opened [] []
  | array {stack : List Frame} {ts : List Token} (h : Opened stack ts) (done : List Value)
      (hroom : stack.length < maxDepth)
      (hdone : ∀ v ∈ done, v.Nested (maxDepth - (stack.length + 1))) :
      Opened (.array done :: stack) (ts ++ .openArray :: Value.itemsBefore done.reverse)
  | object {stack : List Frame} {ts : List Token} (h : Opened stack ts)
      (done : List (String × Value)) (name : String) (hroom : stack.length < maxDepth)
      (hdone : ∀ m ∈ done, m.2.Nested (maxDepth - (stack.length + 1))) :
      Opened (.object done name :: stack)
        (ts ++ .openObject :: Value.membersBefore done.reverse ++ [.string name, .colon])

/-- The tokens that have been read. -/
inductive Consumed : List Token → State → Prop where
  | value {stack : List Frame} {ts : List Token} (h : Opened stack ts) :
      Consumed ts ⟨stack, .value⟩
  | itemOrEnd {stack : List Frame} {ts : List Token} (h : Opened stack ts)
      (hroom : stack.length < maxDepth) :
      Consumed (ts ++ [.openArray]) ⟨.array [] :: stack, .itemOrEnd⟩
  | name {stack : List Frame} {ts : List Token} (h : Opened stack ts)
      (done : List (String × Value)) (orEnd : Bool) (hend : orEnd = true → done = [])
      (hroom : stack.length < maxDepth)
      (hdone : ∀ m ∈ done, m.2.Nested (maxDepth - (stack.length + 1))) :
      Consumed (ts ++ .openObject :: Value.membersBefore done.reverse) ⟨stack, .name done orEnd⟩
  | colon {stack : List Frame} {ts : List Token} (h : Opened stack ts)
      (done : List (String × Value)) (name : String) (hroom : stack.length < maxDepth)
      (hdone : ∀ m ∈ done, m.2.Nested (maxDepth - (stack.length + 1))) :
      Consumed (ts ++ .openObject :: Value.membersBefore done.reverse ++ [.string name])
        ⟨stack, .colon done name⟩
  | after {stack : List Frame} {ts : List Token} (h : Opened stack ts) (v : Value)
      (hv : v.Nested (maxDepth - stack.length)) : Consumed (ts ++ v.tokens) ⟨stack, .after v⟩

variable {stack : List Frame} {ts : List Token} {t : Token} {s s' : State} {ds : List Char}

/-- A container that is opened where there is room for it is nested no deeper than that. -/
lemma nested_array {items : List Value} (hroom : stack.length < maxDepth)
    (h : ∀ v ∈ items, v.Nested (maxDepth - (stack.length + 1))) :
    (Value.array items.reverse).Nested (maxDepth - stack.length) := by
  have hdepth : maxDepth - stack.length = maxDepth - (stack.length + 1) + 1 := by omega
  rw [hdepth]
  exact .array _ _ fun v hv => h v (List.mem_reverse.mp hv)

lemma nested_object {members : List (String × Value)} (hroom : stack.length < maxDepth)
    (h : ∀ m ∈ members, m.2.Nested (maxDepth - (stack.length + 1))) :
    (Value.object members.reverse).Nested (maxDepth - stack.length) := by
  have hdepth : maxDepth - stack.length = maxDepth - (stack.length + 1) + 1 := by omega
  rw [hdepth]
  exact .object _ _ fun m hm => h m (List.mem_reverse.mp hm)

/-- Where a value may begin, one begins. -/
lemma Opened.value_step (h : Opened stack ts) (ht : t.IsSpelled ds)
    (hstep : value? stack t = some s) : Consumed (ts ++ [t]) s := by
  cases ht with
  | openArray =>
    rw [value?] at hstep
    split_ifs at hstep with hroom
    obtain rfl := Option.some.inj hstep
    exact .itemOrEnd h hroom
  | openObject =>
    rw [value?] at hstep
    split_ifs at hstep with hroom
    obtain rfl := Option.some.inj hstep
    exact .name h [] true (fun _ => rfl) hroom (List.forall_mem_nil _)
  | string cs s htext =>
    obtain rfl := Option.some.inj hstep
    exact .after h (.string _) (.string _ _)
  | number n hn =>
    obtain rfl := Option.some.inj hstep
    exact .after h (.number n) (.number _ n)
  | true =>
    obtain rfl := Option.some.inj hstep
    exact .after h (.bool .true) (.bool _ _)
  | false =>
    obtain rfl := Option.some.inj hstep
    exact .after h (.bool .false) (.bool _ _)
  | null =>
    obtain rfl := Option.some.inj hstep
    exact .after h .null (.null _)
  | closeArray | closeObject | comma | colon => cases hstep

/-- Behind a value, a container goes on or ends. -/
lemma Opened.after_step {v : Value} (h : Opened stack ts)
    (hv : v.Nested (maxDepth - stack.length)) (hstep : after? v stack t = some s) :
    Consumed (ts ++ v.tokens ++ [t]) s := by
  cases h with
  | nil => cases t <;> cases hstep
  | @array stack ts h done hroom hdone =>
    have hall : ∀ w ∈ v :: done, w.Nested (maxDepth - (stack.length + 1)) :=
      List.forall_mem_cons.mpr ⟨hv, hdone⟩
    cases t with
    | comma =>
      obtain rfl := Option.some.inj hstep
      have hnext := Consumed.value (h.array (v :: done) hroom hall)
      rw [List.reverse_cons, Value.itemsBefore_concat] at hnext
      simpa only [List.append_assoc, List.cons_append] using hnext
    | closeArray =>
      obtain rfl := Option.some.inj hstep
      have hnext := Consumed.after h (.array (v :: done).reverse) (nested_array hroom hall)
      rw [Value.tokens, List.reverse_cons, Value.itemsTokens_concat] at hnext
      simpa only [List.append_assoc, List.cons_append, List.reverse_cons] using hnext
    | _ => cases hstep
  | @object stack ts h done name hroom hdone =>
    have hall : ∀ m ∈ (name, v) :: done, m.2.Nested (maxDepth - (stack.length + 1)) :=
      List.forall_mem_cons.mpr ⟨hv, hdone⟩
    cases t with
    | comma =>
      obtain rfl := Option.some.inj hstep
      have hnext := Consumed.name h ((name, v) :: done) false Bool.noConfusion hroom hall
      rw [List.reverse_cons, Value.membersBefore_concat] at hnext
      simpa only [List.append_assoc, List.cons_append, List.nil_append] using hnext
    | closeObject =>
      obtain rfl := Option.some.inj hstep
      have hnext := Consumed.after h (.object ((name, v) :: done).reverse)
        (nested_object hroom hall)
      rw [Value.tokens, List.reverse_cons, Value.membersTokens_concat] at hnext
      simpa only [List.append_assoc, List.cons_append, List.nil_append, List.reverse_cons]
        using hnext
    | _ => cases hstep

/-- **Every token continues what has been read.** -/
lemma Consumed.step (h : Consumed ts s) (ht : t.IsSpelled ds) (hstep : step? s t = some s') :
    Consumed (ts ++ [t]) s' := by
  cases h with
  | value h => exact h.value_step ht hstep
  | @itemOrEnd stack ts h hroom =>
    have hopened : Opened (.array [] :: stack) (ts ++ [.openArray]) := h.array [] hroom (List.forall_mem_nil _)
    by_cases hend : t = .closeArray
    · subst hend
      obtain rfl := Option.some.inj hstep
      have hnested : (Value.array []).Nested (maxDepth - stack.length) :=
        nested_array hroom (List.forall_mem_nil _)
      have hnext := Consumed.after h (.array []) hnested
      rw [List.append_assoc]
      exact hnext
    · have hvalue : value? (.array [] :: stack) t = some s' := by
        cases t <;> first | exact hstep | exact absurd rfl hend
      exact hopened.value_step ht hvalue
  | @name stack ts h done orEnd hend hroom hdone =>
    cases t with
    | string name =>
      obtain rfl := Option.some.inj hstep
      exact .colon h done name hroom hdone
    | closeObject =>
      dsimp only [step?] at hstep
      split_ifs at hstep with horEnd
      obtain rfl := Option.some.inj hstep
      obtain rfl := hend horEnd
      have hnested : (Value.object []).Nested (maxDepth - stack.length) :=
        nested_object hroom (List.forall_mem_nil _)
      have hnext := Consumed.after h (.object []) hnested
      rw [List.append_assoc]
      exact hnext
    | _ => cases hstep
  | @colon stack ts h done name hroom hdone =>
    cases t with
    | colon =>
      obtain rfl := Option.some.inj hstep
      have hnext := Consumed.value (h.object done name hroom hdone)
      simpa only [List.append_assoc, List.cons_append, List.nil_append] using hnext
    | _ => cases hstep
  | after h v hv => exact h.after_step hv hstep

lemma Consumed.foldlM {us : List Token} (h : Consumed ts s) (hus : ∀ t ∈ us, ∃ ds, t.IsSpelled ds)
    (hfold : us.foldlM step? s = some s') : Consumed (ts ++ us) s' := by
  induction us generalizing ts s with
  | nil =>
    obtain rfl := Option.some.inj hfold
    rw [List.append_nil]
    exact h
  | cons t us ih =>
    obtain ⟨⟨ds, ht⟩, hus⟩ := List.forall_mem_cons.mp hus
    rw [List.foldlM_cons] at hfold
    obtain ⟨next, hnext, hrest⟩ := Option.bind_eq_some_iff.mp hfold
    rw [List.append_cons]
    exact ih (h.step ht hnext) hus hrest

/-- At the end of a document, its value has been read, and nothing else. -/
lemma Consumed.finish {v : Value} (h : Consumed ts s) (hv : finish? s = some v) :
    ts = v.tokens ∧ v.Nested maxDepth := by
  cases h with
  | after h w hw =>
    cases h with
    | nil =>
      obtain rfl := Option.some.inj hv
      exact ⟨rfl, hw⟩
    | array | object => cases hv
  | value | itemOrEnd | name | colon => cases hv

end Reader

/-- **Documents.**  The reader finds a value in a text exactly if the text is a document of it, the
containers are nested at most `maxDepth` deep, and the numbers are in range. -/
theorem Value.ofString?_eq_some_iff {text : String} {v : Value} :
    Value.ofString? text = some v ↔ IsAdmitted text v := by
  rw [Value.ofString?, Value.ofChars?]
  constructor
  · intro h
    split at h
    · next ts hts =>
      obtain ⟨hrow, hrange⟩ := Token.row_of_ofChars? hts
      rw [Value.ofTokens?] at h
      split at h
      · next s hs =>
        have hconsumed := (Reader.Consumed.value .nil).foldlM hrow.isSpelled hs
        obtain ⟨htokens, hnested⟩ := hconsumed.finish h
        obtain rfl : ts = v.tokens := htokens
        exact ⟨hrow, hnested, hrange⟩
      · cases h
    · cases h
  · rintro ⟨hrow, hnested, hrange⟩
    have hreadable : v.Readable maxDepth := by
      refine hnested.readable fun n hn => ?_
      obtain ⟨ds, hspelled⟩ := Row.isSpelled hrow _ hn
      cases hspelled with
      | number n hwritten =>
        exact ⟨Number.ofChars?_eq_some_iff.mpr ⟨rfl, hwritten⟩, hrange n hn⟩
    have hread : Reader.Completes [] v :=
      Reader.completes hreadable [] (Nat.le_of_eq (Nat.zero_add _))
    rw [Token.ofChars?_of_row hrow hnested.closed.apart hrange]
    simp only [Value.ofTokens?]
    rw [hread]
    rfl

end FleetAgent.Json
