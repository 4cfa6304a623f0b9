import ValueStore.Proofs.Value.Built
import ValueStore.Proofs.Value.Writable

/-!
# Which values have a hash

A walk through a value that opens its lists, and nothing else, ends at scalars and at maps,
functions, channels and other foreign things. A value has a hash exactly if the walk meets
scalars only, and is otherwise refused for the first thing it meets that is none. The
predicate that looks at the outermost kind of a value cannot tell: it is wrong about the
lists in which such a thing is hidden, and about nothing else.
-/

namespace ValueStore

namespace Value

def isScalar : Value -> Bool
  | integer _ => true
  | float _ => true
  | string _ => true
  | boolean _ => true
  | _ => false

def isSealed : Value -> Bool
  | map _ => true
  | function _ => true
  | channel _ => true
  | foreign _ => true
  | _ => false

mutual

/-- What is met on a walk through a value that opens lists, from first to last and to any depth. -/
def leaves : Value -> List Value
  | list items => sequenceLeaves items
  | v => [v]

def sequenceLeaves : Sequence Value -> List Value
  | ⟨front, _, back, _, _⟩ => frontLeaves front ++ backLeaves back

def frontLeaves : List Value -> List Value
  | [] => []
  | v :: rest => v.leaves ++ frontLeaves rest

def backLeaves : List Value -> List Value
  | [] => []
  | v :: rest => backLeaves rest ++ v.leaves

end

theorem frontLeaves_eq (items : List Value) :
    frontLeaves items = items.flatMap leaves := by
  induction items with
  | nil =>
      rfl
  | cons v rest ih =>
      rw [frontLeaves, ih, List.flatMap_cons]

theorem backLeaves_eq (items : List Value) :
    backLeaves items = items.reverse.flatMap leaves := by
  induction items with
  | nil =>
      rfl
  | cons v rest ih =>
      rw [backLeaves, ih, List.reverse_cons, List.flatMap_append, List.flatMap_singleton]

theorem leaves_list (items : Sequence Value) :
    (list items).leaves = items.toList.flatMap leaves := by
  rcases items with ⟨front, frontLength, back, backLength, cell⟩
  rw [leaves, sequenceLeaves, frontLeaves_eq, backLeaves_eq, Sequence.toList, List.flatMap_append]

theorem isSealed_eq_of_mem_leaves {v x : Value} (hx : x ∈ v.leaves) :
    x.isSealed = !x.isScalar := by
  induction hn : v.height using Nat.strongRecOn generalizing v with
  | ind n ih =>
      cases v with
      | list items =>
          rw [leaves_list] at hx
          rcases List.mem_flatMap.mp hx with ⟨w, hw, hx⟩
          exact ih w.height (hn ▸ height_lt_of_mem_list hw) hx rfl
      | _ =>
          rw [leaves, List.mem_singleton] at hx
          · rw [hx]
            rfl
          · exact nofun

/-! ## What hashing is refused for -/

theorem refusal?_hash_list (items : Sequence Value) :
    (hash (list items)).refusal? = items.toList.findSome? fun v => v.hash.refusal? := by
  rw [← Action.refusal?_mapM, Action.refusal?, hash_list, Action.refusal?]
  cases (items.toList.mapM hash).eval <;> rfl

theorem refusal?_hash (v : Value) :
    v.hash.refusal? = (v.leaves.find? isSealed).map fun x => .unhashableKey x.typeName := by
  induction hn : v.height using Nat.strongRecOn generalizing v with
  | ind n ih =>
      cases v with
      | list items =>
          rw [refusal?_hash_list, leaves_list, List.find?_flatMap, List.map_findSome?]
          apply Action.findSome?_congr
          rw [List.forall₂_same]
          intro w hw
          exact ih w.height (hn ▸ height_lt_of_mem_list hw) w rfl
      | _ =>
          rfl

theorem SameContents.refusal?_hash {a b : Value} (h : SameContents a b) :
    a.hash.refusal? = b.hash.refusal? := by
  induction h with
  | self v =>
      rfl
  | list hlength _helements ih =>
      rw [refusal?_hash_list, refusal?_hash_list]
      apply Action.findSome?_congr
      rw [List.forall₂_iff_zip]
      exact ⟨hlength, fun hmem => ih _ hmem⟩
  | map _hlength _hkeys _hvalues _ihkeys _ihvalues =>
      rfl

theorem hashable_iff_refusal?_eq_none {v : Value} :
    keying.Hashable v ↔ v.hash.refusal? = none := by
  unfold Keying.Hashable Action.refusal?
  show (exists word, v.hash.eval = .ok word) ↔ _
  cases v.hash.eval with
  | ok word =>
      simp
  | error error =>
      simp

theorem hashable_iff_leaves {v : Value} :
    keying.Hashable v ↔ forall x, x ∈ v.leaves -> x.isScalar = true := by
  rw [hashable_iff_refusal?_eq_none, refusal?_hash, Option.map_eq_none_iff, List.find?_eq_none]
  apply forall₂_congr
  intro x hx
  rw [isSealed_eq_of_mem_leaves hx, Bool.not_eq_true', Bool.not_eq_false]

theorem hash_refused_iff {v : Value} {error : Error} :
    v.hash.eval = .error error ↔
      exists x, v.leaves.find? isSealed = some x ∧ error = .unhashableKey x.typeName := by
  rw [← Action.refusal?_eq_some_iff, refusal?_hash, Option.map_eq_some_iff]
  simp only [eq_comm]

/--
A value has a hash exactly if all that is met on the walk through it are scalars, and is otherwise
refused for the first map, function, channel or other foreign thing that is met. How lists are
divided into chains does not show in this, nor does it depend on what cells keep that are faithful
to the lists in the value.
-/
theorem hash_decided_by_leaves (v : Value) :
    ((exists word, v.hash.eval = .ok word) ↔ forall x, x ∈ v.leaves -> x.isScalar = true) ∧
      (forall error, v.hash.eval = .error error ↔
        exists x, v.leaves.find? isSealed = some x ∧ error = .unhashableKey x.typeName) ∧
      (forall w, SameContents v w -> w.hash.refusal? = v.hash.refusal?) ∧
      forall Known, ListsKnown Known v -> v.hash.Plain Known :=
  ⟨hashable_iff_leaves, fun _ => hash_refused_iff, fun _ h => h.refusal?_hash.symm,
    fun _ => plain_hash⟩

def letterThenMap : Value :=
  ofChains 1 [] [map .empty, string "a"]

def mapBeforeFunction : Value :=
  ofChains 0 [integer 1] [function (Handle.ofIdentity "callback" 7), letterThenMap]

def mapBeforeFunctionInFront : Value :=
  ofChains 0
    [integer 1, ofChains 1 [string "a", map .empty] [],
      function (Handle.ofIdentity "callback" 7)] []

theorem sameContents_letterThenMap :
    SameContents letterThenMap (ofChains 1 [string "a", map .empty] []) := by
  refine SameContents.list rfl ?_
  intro pair hpair
  rcases List.mem_pair.mp hpair with rfl | rfl
  · exact SameContents.self _
  · exact SameContents.self _

theorem sameContents_mapBeforeFunction :
    SameContents mapBeforeFunction mapBeforeFunctionInFront := by
  refine SameContents.list rfl ?_
  intro pair hpair
  rcases List.mem_cons.mp hpair with rfl | hpair
  · exact SameContents.self _
  · rcases List.mem_pair.mp hpair with rfl | rfl
    · exact sameContents_letterThenMap
    · exact SameContents.self _

theorem listsKnown_letterThenMap :
    ListsKnown (OfEither mapBeforeFunction letterThenMap) letterThenMap := by
  refine listsKnown_ofChains (Or.inr rfl) (List.forall_mem_nil _) ?_
  intro v hv
  rcases List.mem_pair.mp hv with rfl | rfl
  · exact listsKnown_map (List.forall_mem_nil _) (List.forall_mem_nil _)
  · exact nofun

theorem listsKnown_mapBeforeFunction :
    ListsKnown (OfEither mapBeforeFunction letterThenMap) mapBeforeFunction := by
  refine listsKnown_ofChains (Or.inl rfl) ?_ ?_
  · exact List.forall_mem_singleton.mpr (listsKnown_integer 1)
  · intro v hv
    rcases List.mem_pair.mp hv with rfl | rfl
    · exact nofun
    · exact listsKnown_letterThenMap

/-- Of a map in an inner list and a function behind that list, the map is met first. -/
theorem hash_decided_by_leaves_map_before_function :
    (exists x, mapBeforeFunction.leaves.find? isSealed = some x ∧
      Error.unhashableKey "map" = .unhashableKey x.typeName) ∧
      SameContents mapBeforeFunction mapBeforeFunctionInFront ∧
      mapBeforeFunctionInFront.hash.refusal? = mapBeforeFunction.hash.refusal? ∧
      (Cells.run mapBeforeFunction.hash Cells.empty).1 = .error (.unhashableKey "map") := by
  have hrefused : mapBeforeFunction.hash.eval = .error (.unhashableKey "map") := by
    rfl
  have hsame := sameContents_mapBeforeFunction
  have hcells : (Cells.empty : Cells Value).Faithful (OfEither mapBeforeFunction letterThenMap) :=
    faithful_empty_ofEither Nat.zero_ne_one
  rcases hash_decided_by_leaves mapBeforeFunction with ⟨_hashes, hrefusals, hsameRefusal, hplain⟩
  refine ⟨(hrefusals _).mp hrefused, hsame, hsameRefusal _ hsame, ?_⟩
  rw [(hplain _ listsKnown_mapBeforeFunction _ hcells).1]
  exact hrefused

/-! ## The predicate on kinds -/

def Conceals (v : Value) : Prop :=
  (exists items, v = list items) ∧ exists x, x ∈ v.leaves ∧ x.isSealed = true

theorem hashable_of_isHashable {v : Value} (hkind : v.isHashable = true) (hv : ¬v.Conceals) :
    keying.Hashable v := by
  cases v with
  | list items =>
      rw [hashable_iff_leaves]
      intro x hx
      have hopen : ¬x.isSealed = true := fun hsealed => hv ⟨⟨items, rfl⟩, x, hx, hsealed⟩
      rwa [isSealed_eq_of_mem_leaves hx, Bool.not_eq_true', Bool.not_eq_false] at hopen
  | integer n =>
      exact ⟨_, rfl⟩
  | float x =>
      exact ⟨_, rfl⟩
  | string s =>
      exact ⟨_, rfl⟩
  | boolean b =>
      exact ⟨_, rfl⟩
  | _ =>
      cases hkind

theorem Conceals.refused {v : Value} (hv : v.Conceals) :
    exists x, v.leaves.find? isSealed = some x ∧
      v.hash.eval = .error (.unhashableKey x.typeName) := by
  rcases hv with ⟨_hlist, hsealed⟩
  rw [← List.find?_isSome, Option.isSome_iff_exists] at hsealed
  rcases hsealed with ⟨x, hx⟩
  exact ⟨x, hx, hash_refused_iff.mpr ⟨x, hx, rfl⟩⟩

theorem Conceals.isHashable {v : Value} (hv : v.Conceals) :
    v.isHashable = true := by
  rcases hv with ⟨⟨items, rfl⟩, _hsealed⟩
  rfl

theorem hashable_iff_exists_put {m : ValueMap} (hm : m.toList = []) {key : Value} :
    keying.Hashable key ↔
      forall value, exists larger, (m.put keying key value).eval = .ok larger := by
  constructor
  · exact Dictionary.exists_put_of_toList_eq_nil hm
  · intro hput
    rcases hput key with ⟨larger, hlarger⟩
    rcases Dictionary.put_eq_ok hlarger with ⟨hash, hplaced, _hmisses, _hadded⟩
    exact hplaced.hashable

theorem toList_eq_nil_of_isEmpty {m : ValueMap} (hm : m.Reachable keying)
    (hempty : m.isEmpty = true) :
    m.toList = [] := by
  rw [← List.length_eq_zero_iff, ← hm.sound.counted]
  exact eq_of_beq hempty

/--
The predicate on kinds tells whether a value has a hash, and so whether it can be added as a key to
an empty map, except that it takes every list for hashable, also one in which something sealed is
met. Such a list is refused. None of this depends on what cells keep that are faithful to the lists
in the value.
-/
theorem isHashable_except_concealing (v : Value) :
    (¬v.Conceals -> (v.isHashable = true ↔ keying.Hashable v)) ∧
      (v.Conceals -> v.isHashable = true ∧
        exists x, v.leaves.find? isSealed = some x ∧
          v.hash.eval = .error (.unhashableKey x.typeName)) ∧
      (forall m : ValueMap, m.Reachable keying -> m.isEmpty = true ->
        (keying.Hashable v ↔
          forall value, exists larger, (m.put keying v value).eval = .ok larger) ∧
        forall Known, ListsKnown Known v -> forall value, (m.put keying v value).Plain Known) ∧
      forall Known, ListsKnown Known v -> v.hash.Plain Known := by
  refine ⟨?_, fun hv => ⟨hv.isHashable, hv.refused⟩, ?_, fun Known => plain_hash⟩
  · intro hv
    exact ⟨fun hkind => hashable_of_isHashable hkind hv, isHashable_of_hashable⟩
  · intro m hm hempty
    have hnil := toList_eq_nil_of_isEmpty hm hempty
    refine ⟨hashable_iff_exists_put hnil, ?_⟩
    intro Known hv value
    apply Dictionary.plain_put plain_keying _ hv
    intro entry hentry
    rw [hnil] at hentry
    cases hentry

def mapInList : Value :=
  ofChains 0 [map .empty] []

theorem conceals_mapInList :
    mapInList.Conceals :=
  ⟨⟨_, rfl⟩, map .empty, List.mem_singleton_self _, rfl⟩

/-- By its kind the list of a map is hashable, but it has no hash and is refused as a key. -/
theorem isHashable_mapInList :
    ¬(mapInList.isHashable = true ↔ keying.Hashable mapInList) ∧
      ((.empty : ValueMap).put keying mapInList (boolean true)).eval =
        .error (.unhashableKey "map") := by
  constructor
  · intro hiff
    rcases hiff.mp rfl with ⟨word, hword⟩
    cases hword
  · rfl

/-- The list of a map is refused. The list of two numbers is not, also by a map of tombstones. -/
theorem isHashable_except_concealing_lists :
    (mapInList.isHashable = true ∧
      exists x, mapInList.leaves.find? isSealed = some x ∧
        mapInList.hash.eval = .error (.unhashableKey x.typeName)) ∧
      keying.Hashable splitZero ∧
      (forall value, exists larger, (forgotten.put keying splitZero value).eval = .ok larger) ∧
      (Cells.run (forgotten.put keying splitZero (boolean true)) Cells.empty).1 =
        (forgotten.put keying splitZero (boolean true)).eval ∧
      (Cells.run splitZero.hash Cells.empty).1 = splitZero.hash.eval := by
  have hopen : ¬splitZero.Conceals := by
    intro hconceals
    rcases hconceals with ⟨_hlist, x, hx, hsealed⟩
    rcases List.mem_pair.mp hx with rfl | rfl
    · cases hsealed
    · cases hsealed
  rcases isHashable_except_concealing splitZero with ⟨hkind, _hconceals, hempty, hplain⟩
  have hhashable := (hkind hopen).mp rfl
  rcases hempty forgotten built_forgotten.reachable rfl with ⟨hput, hputPlain⟩
  refine ⟨(isHashable_except_concealing mapInList).2.1 conceals_mapInList, hhashable,
    hput.mp hhashable, ?_, ?_⟩
  · exact (hputPlain _ listsKnown_splitZero _ _ faithful_empty_zeros).1
  · exact (hplain _ listsKnown_splitZero _ faithful_empty_zeros).1

end Value

end ValueStore
