import ValueStore.Proofs.Value.Refusals
import ValueStore.Value.Serialize

/-!
# What stands in the way of writing a value

Writing a value goes through the elements of its lists and the live entries of its maps,
each key before its value. No format writes a function, a channel or another foreign
thing, and where keys are text, no key can be a list or a number that is not finite. The
first of these to be met is the obstacle. What a tombstone still holds is never met, nor
does it matter how the elements of a list are divided between its chains.
-/

namespace ValueStore

namespace Value

def isThing : Value -> Bool
  | function _ => true
  | channel _ => true
  | foreign _ => true
  | _ => false

def isTextKey : Value -> Bool
  | list _ => false
  | float x => x.isFinite
  | _ => true

/-- What is reached from a value through elements of lists and live values of maps. -/
inductive Held : Value -> Value -> Prop where
  | self {v : Value} : Held v v
  | element {items : Sequence Value} {v x : Value} :
      v ∈ items.toList -> Held x v -> Held x (list items)
  | value {m : ValueMap} {entry : Value × Value} {x : Value} :
      entry ∈ m.toList -> Held x entry.2 -> Held x (map m)

/-- Nothing that is reached stands in the way of writing a value. -/
structure Writable (v : Value) : Prop where
  things : forall x : Value, x.Held v -> x.isThing = false
  keys : forall m : ValueMap, (map m).Held v ->
    forall entry, entry ∈ m.toList -> entry.1.isTextKey = true

inductive Obstacle where
  | thing (typeName : String)
  | listKey
  | floatKey

inductive KeyObstacle : Value -> Obstacle -> Prop where
  | list (items : Sequence Value) : KeyObstacle (list items) .listKey
  | float {x : Binary64} : x.isFinite = false -> KeyObstacle (float x) .floatKey

/-- The first thing that stands in the way of writing a value, in the order of its contents. -/
inductive FirstObstacle : Value -> Obstacle -> Prop where
  | thing {v : Value} : v.isThing = true -> FirstObstacle v (.thing v.typeName)
  | element {items : Sequence Value} {before after : List Value} {v : Value}
      {obstacle : Obstacle} :
      items.toList = before ++ v :: after -> (forall u, u ∈ before -> u.Writable) ->
      FirstObstacle v obstacle -> FirstObstacle (list items) obstacle
  | key {m : ValueMap} {before after : List (Value × Value)} {entry : Value × Value}
      {obstacle : Obstacle} :
      m.toList = before ++ entry :: after ->
      (forall d, d ∈ before -> d.1.isTextKey = true ∧ d.2.Writable) ->
      KeyObstacle entry.1 obstacle -> FirstObstacle (map m) obstacle
  | value {m : ValueMap} {before after : List (Value × Value)} {entry : Value × Value}
      {obstacle : Obstacle} :
      m.toList = before ++ entry :: after ->
      (forall d, d ∈ before -> d.1.isTextKey = true ∧ d.2.Writable) ->
      entry.1.isTextKey = true -> FirstObstacle entry.2 obstacle ->
      FirstObstacle (map m) obstacle

/-! ## What may be written, part by part -/

theorem writable_list_iff {items : Sequence Value} :
    (list items).Writable ↔ forall v, v ∈ items.toList -> v.Writable := by
  constructor
  · intro h v hv
    exact ⟨fun x hx => h.things x (Held.element hv hx),
      fun m hm => h.keys m (Held.element hv hm)⟩
  · intro h
    constructor
    · intro x hx
      cases hx with
      | self =>
          rfl
      | element hv hx =>
          exact (h _ hv).things x hx
    · intro m hm
      cases hm with
      | element hv hm =>
          exact (h _ hv).keys m hm

theorem writable_map_iff {m : ValueMap} :
    (map m).Writable ↔
      forall entry, entry ∈ m.toList -> entry.1.isTextKey = true ∧ entry.2.Writable := by
  constructor
  · intro h entry hentry
    exact ⟨h.keys m Held.self entry hentry, fun x hx => h.things x (Held.value hentry hx),
      fun inner hinner => h.keys inner (Held.value hentry hinner)⟩
  · intro h
    constructor
    · intro x hx
      cases hx with
      | self =>
          rfl
      | value hentry hx =>
          exact (h _ hentry).2.things x hx
    · intro inner hinner
      cases hinner with
      | self =>
          exact fun entry hentry => (h entry hentry).1
      | value hentry hinner =>
          exact (h _ hentry).2.keys inner hinner

theorem writable_of_scalar {v : Value} (hthing : v.isThing = false)
    (hlist : forall items, v ≠ list items) (hmap : forall m, v ≠ map m) :
    v.Writable := by
  constructor
  · intro x hx
    cases hx with
    | self =>
        exact hthing
    | element _hv _hx =>
        exact absurd rfl (hlist _)
    | value _hentry _hx =>
        exact absurd rfl (hmap _)
  · intro m hm
    cases hm with
    | self =>
        exact absurd rfl (hmap _)
    | element _hv _hm =>
        exact absurd rfl (hlist _)
    | value _hentry _hm =>
        exact absurd rfl (hmap _)

theorem writable_map_of_perm {l r : ValueMap} (hperm : l.toList.Perm r.toList) :
    (map l).Writable ↔ (map r).Writable := by
  rw [writable_map_iff, writable_map_iff]
  constructor
  · exact fun h entry hentry => h entry (hperm.mem_iff.mpr hentry)
  · exact fun h entry hentry => h entry (hperm.mem_iff.mp hentry)

/-! ## Writing is possible, or there is a first obstacle -/

theorem exists_keyObstacle {key : Value} (htext : key.isTextKey = false) :
    exists obstacle, KeyObstacle key obstacle := by
  cases key with
  | list items =>
      exact ⟨_, KeyObstacle.list items⟩
  | float x =>
      exact ⟨_, KeyObstacle.float htext⟩
  | _ =>
      cases htext

theorem exists_firstObstacle_of_height {n : Nat} {v : Value} (hn : v.height ≤ n)
    (hv : ¬v.Writable) :
    exists obstacle, FirstObstacle v obstacle := by
  induction n generalizing v with
  | zero =>
      exact absurd v.height_pos (Nat.not_lt.mpr hn)
  | succ n ih =>
      cases v with
      | list items =>
          rcases Action.forall_or_exists_first Writable items.toList with
            hall | ⟨before, v, after, hitems, hbefore, hv⟩
          · exact absurd (writable_list_iff.mpr hall) hv
          · have hmem : v ∈ items.toList := by
              rw [hitems]
              exact List.mem_append_right _ List.mem_cons_self
            have hvn := Nat.le_of_lt_succ ((height_lt_of_mem_list hmem).trans_le hn)
            rcases ih hvn hv with ⟨obstacle, hobstacle⟩
            exact ⟨obstacle, FirstObstacle.element hitems hbefore hobstacle⟩
      | map m =>
          rcases Action.forall_or_exists_first
              (fun d : Value × Value => d.1.isTextKey = true ∧ d.2.Writable) m.toList with
            hall | ⟨before, entry, after, hentries, hbefore, hentry⟩
          · exact absurd (writable_map_iff.mpr hall) hv
          · cases htext : entry.1.isTextKey with
            | false =>
                rcases exists_keyObstacle htext with ⟨obstacle, hobstacle⟩
                exact ⟨obstacle, FirstObstacle.key hentries hbefore hobstacle⟩
            | true =>
                have hmem : entry ∈ m.toList := by
                  rw [hentries]
                  exact List.mem_append_right _ List.mem_cons_self
                have hvn := Nat.le_of_lt_succ ((value_height_lt_of_mem_map hmem).trans_le hn)
                rcases ih hvn fun hvalue => hentry ⟨htext, hvalue⟩ with ⟨obstacle, hobstacle⟩
                exact ⟨obstacle, FirstObstacle.value hentries hbefore htext hobstacle⟩
      | function handle =>
          exact ⟨_, FirstObstacle.thing rfl⟩
      | channel handle =>
          exact ⟨_, FirstObstacle.thing rfl⟩
      | foreign handle =>
          exact ⟨_, FirstObstacle.thing rfl⟩
      | _ =>
          refine absurd (writable_of_scalar rfl ?_ ?_) hv
          · exact nofun
          · exact nofun

/-! ## What does not show -/

/--
Two values with the same contents: lists with the same elements in the same order, and maps with
the same live entries in the same order, each up to the same.
-/
inductive SameContents : Value -> Value -> Prop where
  | self (v : Value) : SameContents v v
  | list {xs ys : Sequence Value} :
      xs.toList.length = ys.toList.length ->
      (forall pair, pair ∈ xs.toList.zip ys.toList -> SameContents pair.1 pair.2) ->
      SameContents (list xs) (list ys)
  | map {l r : ValueMap} :
      l.toList.length = r.toList.length ->
      (forall pair, pair ∈ l.toList.zip r.toList -> SameContents pair.1.1 pair.2.1) ->
      (forall pair, pair ∈ l.toList.zip r.toList -> SameContents pair.1.2 pair.2.2) ->
      SameContents (map l) (map r)

end Value

end ValueStore
