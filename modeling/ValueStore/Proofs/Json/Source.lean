import ValueStore.Proofs.Json.Scalars
import ValueStore.Proofs.Source

/-!
# What is written as JSON is read back

An array is its items with commas between them, and its reader stops right behind its
closing bracket. Each array takes up one level of nesting on the way to its items.
-/

namespace ValueStore

namespace Json

def arrayTail : List (List Char) -> List Char
  | [] => [']']
  | item :: rest => ',' :: (item ++ arrayTail rest)

theorem intercalate_append_bracket (item : List Char) (rest : List (List Char)) :
    [','].intercalate (item :: rest) ++ [']'] = item ++ arrayTail rest := by
  induction rest generalizing item with
  | nil =>
      rw [List.intercalate_singleton, arrayTail]
  | cons next rest ih =>
      rw [List.intercalate_cons_cons, arrayTail, List.append_assoc, List.append_assoc, ih,
        List.singleton_append]

theorem toList_array (items : List String) :
    (array items).toList = '[' :: ([','].intercalate (items.map String.toList) ++ [']']) := by
  rw [array, String.toList_append, String.toList_append, String.toList_intercalate]
  rfl

theorem separated_arrayTail (items : List (List Char)) (rest : List Char) :
    Separated (arrayTail items ++ rest) := by
  cases items with
  | nil =>
      exact Separated.bracket rest
  | cons item items =>
      exact Separated.comma _

theorem length_lt_arrayTail (items : List (List Char)) :
    items.length < (arrayTail items).length := by
  induction items with
  | nil =>
      exact Nat.lt_succ_self 0
  | cons item rest ih =>
      rw [arrayTail, List.length_cons, List.length_cons, List.length_append]
      omega

/-- The text is at the front of the input, and something separates it from the rest. -/
structure Stands (room : Nat) (text : String) (input rest : Input) : Prop where
  text : input.text = text.toList ++ rest.text
  separated : Separated rest.text
  enough : room ≤ input.room
  room : rest.room = input.room

def grammar : Grammar Role String Input (List String) where
  AtValue place := place = .value
  Text := IsItem
  Stands := Stands
  Holds _ items written := written = items.reverse ∧ forall item, item ∈ items -> IsItem item
  limit := nestingLimit

theorem arrayRest_comma (room bound outside : Nat) {item : String} (hitem : IsItem item)
    (rest : List Char) :
    arrayRest room (bound + 1) ⟨',' :: (item.toList ++ rest), outside⟩ =
      .item ⟨item.toList ++ rest, room⟩ (arrayRest room bound) := by
  rcases hitem with ⟨c, text, htext, hblank, hbracket⟩
  rw [htext, List.cons_append]
  conv_lhs => unfold arrayRest
  rw [skipBlank_cons rfl]
  split
  · rename_i heq
    cases heq
  · rename_i heq
    cases heq
  · rename_i heq
    cases heq
    rw [skipBlank_cons hblank]
    split
    · rename_i heq
      cases heq
    · rename_i heq
      cases heq
      exact absurd rfl hbracket
    · rfl
  · rename_i hcomma
    exact absurd rfl (hcomma _)

theorem arrayItems_item (room : Nat) {item : String} (hitem : IsItem item) (rest : List Char) :
    arrayItems ⟨'[' :: (item.toList ++ rest), room + 1⟩ =
      .item ⟨item.toList ++ rest, room⟩ fun after =>
        arrayRest room (after.text.length + 1) after := by
  rcases hitem with ⟨c, text, htext, hblank, hbracket⟩
  rw [htext, List.cons_append]
  unfold arrayItems
  rw [skipBlank_cons rfl]
  split
  · rename_i heq
    cases heq
  · rename_i heq
    cases heq
    dsimp only
    rw [skipBlank_cons hblank]
    split
    · rename_i heq
      cases heq
    · rename_i heq
      cases heq
      exact absurd rfl hbracket
    · rfl
  · rename_i hopening
    exact absurd rfl (hopening _)

theorem stands_before_arrayTail {room inside : Nat} (hroom : room ≤ inside) (item : String)
    (items : List String) (rest : List Char) :
    Stands room item ⟨item.toList ++ (arrayTail (items.map String.toList) ++ rest), inside⟩
      ⟨arrayTail (items.map String.toList) ++ rest, inside⟩ :=
  ⟨rfl, separated_arrayTail _ rest, hroom, rfl⟩

theorem presents_arrayRest {room inside : Nat} (hroom : room ≤ inside) {items : List String}
    (hitems : forall item, item ∈ items -> IsItem item) {bound : Nat}
    (hbound : items.length < bound) (outside : Nat) (rest : List Char) :
    (arrayRest inside bound ⟨arrayTail (items.map String.toList) ++ rest, outside⟩).Presents
      (Stands room) items ⟨rest, inside + 1⟩ := by
  induction items generalizing bound outside with
  | nil =>
      cases bound with
      | zero =>
          cases hbound
      | succ bound =>
          exact Supply.Presents.finished _
  | cons item items ih =>
      cases bound with
      | zero =>
          cases hbound
      | succ bound =>
          rcases List.forall_mem_cons.mp hitems with ⟨hitem, hrest⟩
          rw [List.map_cons, arrayTail, List.cons_append, List.append_assoc,
            arrayRest_comma inside bound outside hitem]
          exact Supply.Presents.item (stands_before_arrayTail hroom item items rest)
            (ih hrest (Nat.lt_of_succ_lt_succ hbound) inside)

theorem presents_arrayItems {room inside : Nat} (hroom : room ≤ inside) {items : List String}
    (hitems : forall item, item ∈ items -> IsItem item) (rest : List Char) :
    (arrayItems ⟨(array items).toList ++ rest, inside + 1⟩).Presents (Stands room) items
      ⟨rest, inside + 1⟩ := by
  rw [toList_array, List.cons_append]
  cases items with
  | nil =>
      exact Supply.Presents.finished _
  | cons item items =>
      rcases List.forall_mem_cons.mp hitems with ⟨hitem, hrest⟩
      rw [List.map_cons, intercalate_append_bracket, List.append_assoc,
        arrayItems_item inside hitem]
      have hbound : items.length < (arrayTail (items.map String.toList) ++ rest).length + 1 := by
        have hlt := length_lt_arrayTail (items.map String.toList)
        rw [List.length_map] at hlt
        rw [List.length_append]
        omega
      exact Supply.Presents.item (stands_before_arrayTail hroom item items rest)
        (presents_arrayRest hroom hrest hbound inside rest)

theorem Stands.inside {room : Nat} {text : String} {input rest : Input}
    (h : Stands (room + 1) text input rest) :
    exists inside, room ≤ inside ∧ input = ⟨text.toList ++ rest.text, inside + 1⟩ ∧
      rest = ⟨rest.text, inside + 1⟩ := by
  rcases h with ⟨htext, _hseparated, henough, hsame⟩
  rcases Nat.exists_eq_add_of_le' henough with ⟨spare, hspare⟩
  rw [← Nat.add_assoc] at hspare
  refine ⟨spare + room, Nat.le_add_left room spare, ?_, ?_⟩
  · rw [← htext, ← hspare]
  · rw [← hspare, ← hsame]

theorem Reader.on_of_stands {α : Type} {reader : Reader α} {text : String} {x : α}
    (hread : forall rest, Separated rest -> reader (text.toList ++ rest) = .ok (x, rest))
    {room : Nat} {input rest : Input} (h : Stands room text input rest) :
    reader.on input = .ok (x, rest) := by
  rcases rest with ⟨rest, outside⟩
  have hroom : outside = input.room := h.room
  unfold Reader.on
  rw [h.text, hread rest h.separated, hroom]

theorem isItem_array (items : List String) :
    IsItem (array items) :=
  ⟨'[', _, toList_array items, rfl, by decide⟩

theorem sharedBy_source {α : Type} :
    grammar.SharedBy (format : Format α Role String _ _) source where
  integer := by
    rintro place n rfl
    refine ⟨integer n, rfl, isItem_integer n, ?_⟩
    intro room input rest hstands
    exact Reader.on_of_stands (fun _ hrest => read_int64 n hrest) hstands
  string := by
    rintro place s rfl
    refine ⟨string s, rfl, isItem_string s, ?_⟩
    intro room input rest hstands
    exact Reader.on_of_stands (fun rest _hrest => read_string s rest) hstands
  start := by
    rintro place n rfl
    exact ⟨[], rfl, rfl, List.forall_mem_nil _⟩
  element := by
    rintro n items written ⟨rfl, hitems⟩
    refine ⟨.value, (· :: items.reverse), rfl, ?_, ?_⟩
    · intro item hitem
      refine ⟨(List.reverse_concat ..).symm, ?_⟩
      rw [List.forall_mem_append, List.forall_mem_singleton]
      exact ⟨hitems, hitem⟩
    · exact fun write => Action.eval_bind_pure (write .value) _
  finish := by
    rintro items written ⟨rfl, hitems⟩
    refine ⟨array items, ?_, isItem_array items, ?_⟩
    · show Except.ok (array items.reverse.reverse) = _
      rw [List.reverse_reverse]
    · intro room input rest hstands
      rcases hstands.inside with ⟨inside, hroom, hinput, hrest⟩
      rw [hinput, hrest]
      exact presents_arrayItems hroom hitems rest.text
  whole := by
    intro room text _htext hroom
    refine ⟨⟨[], nestingLimit⟩, ?_, rfl⟩
    exact ⟨(List.append_nil _).symm, Separated.nothing, Nat.cast_le.mp hroom, rfl⟩

end Json

end ValueStore
