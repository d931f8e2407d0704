/-
# Reading what has been written

The reader takes the tokens of a value, wherever the value stands, from the moment at which a
value may begin to the moment after it, and leaves the open containers as they are
(`Reader.Completes`).  The items of an array and the members of an object are put behind those
that have been read, one after the other.

Together with the cutting into tokens this gives the law of the printer: what has been written is
read back, if no more than `maxDepth` containers are nested (`Value.ofString?_render`).
-/
import FleetAgent.Json.Reader
import FleetAgent.Proofs.Json.Token

namespace FleetAgent.Json

namespace Reader

/-- The tokens of a value are read as this value. -/
def Completes (stack : List Frame) (v : Value) : Prop :=
  v.tokens.foldlM step? ⟨stack, .value⟩ = some ⟨stack, .after v⟩

/-- No value begins with the end of an array, and so no items do. -/
lemma exists_itemsTokens_eq (v : Value) (items : List Value) :
    ∃ t ts, Value.itemsTokens (v :: items) = t :: ts ∧ t ≠ .closeArray := by
  have hv : ∃ t ts, v.tokens = t :: ts ∧ t ≠ .closeArray := by
    cases v <;> rw [Value.tokens] <;> exact ⟨_, _, rfl, Token.noConfusion⟩
  obtain ⟨t, ts, hts, ht⟩ := hv
  cases items <;> rw [Value.itemsTokens, hts]
  · exact ⟨t, _, rfl, ht⟩
  · exact ⟨t, _, rfl, ht⟩
  · exact List.cons_ne_nil _ _

/-- The first item of an array is read as every other one. -/
lemma foldlM_itemOrEnd (v : Value) (items : List Value) (stack : List Frame) :
    (Value.itemsTokens (v :: items)).foldlM step? ⟨stack, .itemOrEnd⟩
      = (Value.itemsTokens (v :: items)).foldlM step? ⟨stack, .value⟩ := by
  obtain ⟨t, ts, hts, ht⟩ := exists_itemsTokens_eq v items
  have hstep : step? ⟨stack, .itemOrEnd⟩ t = step? ⟨stack, .value⟩ t := by
    cases t <;> first | rfl | exact absurd rfl ht
  rw [hts, List.foldlM_cons, List.foldlM_cons, hstep]

variable {stack : List Frame}

/-- The tokens of a value and one more are read. -/
lemma Completes.foldlM_append {v : Value} (h : Completes stack v) (t : Token) (ts : List Token) :
    (v.tokens ++ t :: ts).foldlM step? ⟨stack, .value⟩
      = (after? v stack t).bind fun s => ts.foldlM step? s := by
  rw [List.foldlM_append, h]
  rfl

/-- The items of an array are read behind those that are done. -/
lemma foldlM_itemsTokens {items : List Value} (hne : items ≠ []) (done : List Value)
    (h : ∀ v ∈ items, ∀ done, Completes (.array done :: stack) v) :
    (Value.itemsTokens items).foldlM step? ⟨.array done :: stack, .value⟩
      = some ⟨stack, .after (.array (done.reverse ++ items))⟩ := by
  induction items generalizing done with
  | nil => exact absurd rfl hne
  | cons v items ih =>
    obtain ⟨hv, hitems⟩ := List.forall_mem_cons.mp h
    cases items with
    | nil =>
      rw [Value.itemsTokens, (hv done).foldlM_append]
      simp [after?]
    | cons w items =>
      have hrest := ih (List.cons_ne_nil w items) (v :: done) hitems
      rw [List.reverse_cons, List.append_assoc] at hrest
      rw [Value.itemsTokens, (hv done).foldlM_append]
      · exact hrest
      · exact List.cons_ne_nil _ _

/-- The members of an object are read behind those that are done. -/
lemma foldlM_membersTokens {members : List (String × Value)} (orEnd : Bool)
    (hend : members = [] → orEnd = true) (done : List (String × Value))
    (h : ∀ m ∈ members, ∀ done name, Completes (.object done name :: stack) m.2) :
    (Value.membersTokens members).foldlM step? ⟨stack, .name done orEnd⟩
      = some ⟨stack, .after (.object (done.reverse ++ members))⟩ := by
  induction members generalizing done orEnd with
  | nil =>
    rw [hend rfl, Value.membersTokens, List.append_nil]
    rfl
  | cons m members ih =>
    obtain ⟨name, v⟩ := m
    obtain ⟨hv, hmembers⟩ := List.forall_mem_cons.mp h
    -- the name and the colon open the member
    have hopen (ts : List Token) :
        (.string name :: .colon :: ts).foldlM step? ⟨stack, .name done orEnd⟩
          = ts.foldlM step? ⟨.object done name :: stack, .value⟩ := rfl
    cases members with
    | nil =>
      rw [Value.membersTokens, List.cons_append, List.cons_append, hopen,
        (hv done name).foldlM_append]
      simp [after?]
    | cons m members =>
      have hrest := ih false (absurd · (List.cons_ne_nil m members)) ((name, v) :: done) hmembers
      rw [List.reverse_cons, List.append_assoc] at hrest
      rw [Value.membersTokens, List.cons_append, List.cons_append, hopen,
        (hv done name).foldlM_append]
      · exact hrest
      · exact List.cons_ne_nil _ _

/-- A value is read wherever there is room for its containers. -/
lemma completes {depth : Nat} {v : Value} (h : v.Readable depth) (stack : List Frame)
    (hroom : stack.length + depth ≤ maxDepth) : Completes stack v := by
  induction h generalizing stack with
  | null depth | bool depth b | number depth n h | string depth s => rfl
  | array depth items h ih =>
    have hopen : stack.length < maxDepth := by omega
    have hitems : ∀ v ∈ items, ∀ done, Completes (.array done :: stack) v :=
      fun v hv done => ih v hv _ (by simp only [List.length_cons]; omega)
    rw [Completes, Value.tokens, List.foldlM_cons]
    simp only [step?, value?, hopen, if_true]
    cases items with
    | nil => rfl
    | cons v items =>
      have hread := foldlM_itemsTokens (List.cons_ne_nil v items) [] hitems
      rw [← foldlM_itemOrEnd] at hread
      exact hread
  | object depth members h ih =>
    have hopen : stack.length < maxDepth := by omega
    have hmembers : ∀ m ∈ members, ∀ done name, Completes (.object done name :: stack) m.2 :=
      fun m hm done name => ih m hm _ (by simp only [List.length_cons]; omega)
    rw [Completes, Value.tokens, List.foldlM_cons]
    simp only [step?, value?, hopen, if_true]
    exact foldlM_membersTokens true (fun _ => rfl) [] hmembers

end Reader

/-- **What has been written is read back.** -/
theorem Value.ofString?_render {v : Value} (h : v.Readable maxDepth) :
    Value.ofString? v.render = some v := by
  have hread : Reader.Completes [] v := Reader.completes h [] (Nat.le_of_eq (Nat.zero_add _))
  rw [Value.ofString?, Value.render, String.toList_ofList, Value.ofChars?,
    Token.ofChars?_chars h]
  simp only [Value.ofTokens?]
  rw [hread]
  rfl

end FleetAgent.Json
