import ValueStore.Proofs.Dictionary.Refusals
import ValueStore.Proofs.Value.Reflexivity

/-!
# What values are refused for

Hashing a value is refused only for something in it of a kind that has no hash, and
comparing two values only for two things in them of which one cannot be compared. Values
that have a hash have nothing of either kind in them, so they can always be compared, and
a map asks for nothing else in looking for a key. That maps are compared by hashing and
looking up their keys never shows in what is refused, since live keys have a hash.
-/

namespace ValueStore

namespace Value

/-! ## Hashing -/

theorem hash_refused_of_height {n : Nat} {v : Value} (hn : v.height ≤ n) {error : Error}
    (herror : v.hash.eval = .error error) :
    exists x : Value, x.Within v ∧ x.isHashable = false ∧ error = .unhashableKey x.typeName := by
  induction n generalizing v with
  | zero =>
      exact absurd v.height_pos (Nat.not_lt.mpr hn)
  | succ n ih =>
      cases v with
      | list items =>
          rw [hash_list] at herror
          cases hhashes : (items.toList.mapM hash).eval with
          | ok hashes =>
              rw [hhashes] at herror
              cases herror
          | error error' =>
              rw [hhashes] at herror
              cases herror
              rcases Action.mapM_refused hhashes with ⟨v, hv, hrefused⟩
              have hvn := Nat.le_of_lt_succ ((height_lt_of_mem_list hv).trans_le hn)
              rcases ih hvn hrefused with ⟨x, hx, hkind, heq⟩
              exact ⟨x, Within.element hv hx, hkind, heq⟩
      | map m =>
          cases herror
          exact ⟨_, Within.self, rfl, rfl⟩
      | function handle =>
          cases herror
          exact ⟨_, Within.self, rfl, rfl⟩
      | channel handle =>
          cases herror
          exact ⟨_, Within.self, rfl, rfl⟩
      | foreign handle =>
          cases herror
          exact ⟨_, Within.self, rfl, rfl⟩
      | _ =>
          cases herror

theorem hash_refused {v : Value} {error : Error} (herror : v.hash.eval = .error error) :
    exists x : Value, x.Within v ∧ x.isHashable = false ∧ error = .unhashableKey x.typeName :=
  hash_refused_of_height (Nat.le_refl v.height) herror

theorem comparesHashable :
    keying.ComparesHashable :=
  fun _ _ ha hb => agree_answers ha hb

/-! ## Comparing -/

def MapsReachable (v : Value) : Prop :=
  forall m : ValueMap, (map m).Within v -> m.Reachable keying

theorem MapsReachable.element {items : Sequence Value} (h : MapsReachable (list items))
    {v : Value} (hv : v ∈ items.toList) :
    MapsReachable v :=
  fun m hm => h m (Within.element hv hm)

theorem MapsReachable.value {m : ValueMap} (h : MapsReachable (map m)) {entry : Value × Value}
    (hentry : entry ∈ m.toList) :
    MapsReachable entry.2 :=
  fun inner hinner => h inner (Within.value hentry hinner)

theorem MapsReachable.sound {m : ValueMap} (h : MapsReachable (map m)) :
    m.Sound keying :=
  (h m Within.self).sound

/-- Two things, one in either value, of which one cannot be compared, and what they are called. -/
structure Clash (a b x y : Value) (error : Error) : Prop where
  within : x.Within a ∧ y.Within b ∨ x.Within b ∧ y.Within a
  incomparable : (x.isComparable && y.isComparable) = false
  names : error = .incomparable x.typeName y.typeName

theorem Clash.lift {a b a' b' x y : Value} {error : Error}
    (ha : forall x : Value, x.Within a -> x.Within a')
    (hb : forall x : Value, x.Within b -> x.Within b') (h : Clash a b x y error) :
    Clash a' b' x y error := by
  refine ⟨?_, h.incomparable, h.names⟩
  rcases h.within with ⟨hx, hy⟩ | ⟨hx, hy⟩
  · exact Or.inl ⟨ha x hx, hb y hy⟩
  · exact Or.inr ⟨hb x hx, ha y hy⟩

theorem Clash.swap {a b x y : Value} {error : Error} (h : Clash a b x y error) :
    Clash b a x y error :=
  ⟨h.within.symm, h.incomparable, h.names⟩

theorem clash_of_differ {a b : Value} {error : Error}
    (herror : (if a.isComparable && b.isComparable then return false
        else Action.fail (.incomparable a.typeName b.typeName) : Action Value Bool).eval =
      .error error) :
    Clash a b a b error := by
  by_cases hcomparable : (a.isComparable && b.isComparable) = true
  · rw [if_pos hcomparable] at herror
    cases herror
  · rw [if_neg hcomparable] at herror
    cases herror
    exact ⟨Or.inl ⟨Within.self, Within.self⟩, Bool.eq_false_of_not_eq_true hcomparable, rfl⟩

theorem agree_refused_of_height {n : Nat} {a b : Value} (han : a.height ≤ n) (hbn : b.height ≤ n)
    (ha : MapsReachable a) (hb : MapsReachable b) {error : Error}
    (herror : (a.agree b).eval = .error error) :
    exists x y, Clash a b x y error := by
  induction n generalizing a b with
  | zero =>
      exact absurd a.height_pos (Nat.not_lt.mpr han)
  | succ n ih =>
      have hstep := (agree_eval a b).symm.trans herror
      unfold agreeAt at hstep
      dsimp only at hstep
      split at hstep
      · cases hstep
      · cases hstep
      · cases hstep
      · cases hstep
      · rename_i xs ys
        rw [agree_list] at herror
        rcases Sequence.agree_refused herror with ⟨x, y, hx, hy, hrefused⟩
        have hxn := Nat.le_of_lt_succ ((height_lt_of_mem_list hx).trans_le han)
        have hyn := Nat.le_of_lt_succ ((height_lt_of_mem_list hy).trans_le hbn)
        rcases ih hxn hyn (ha.element hx) (hb.element hy) hrefused with ⟨u, v, hclash⟩
        exact ⟨u, v, hclash.lift (fun _ => Within.element hx) fun _ => Within.element hy⟩
      · rename_i l r
        rw [agree_map] at herror
        -- looking the keys up is never refused, and the values may be compared in either order
        rcases ha.sound.agree_refused comparesHashable hb.sound herror with
          ⟨d, e, hd, he, hrefused⟩
        have hdn := Nat.le_of_lt_succ ((value_height_lt_of_mem_map hd).trans_le han)
        have hen := Nat.le_of_lt_succ ((value_height_lt_of_mem_map he).trans_le hbn)
        have hclash : exists x y, Clash d.2 e.2 x y error := by
          rcases hrefused with hrefused | hrefused
          · exact ih hdn hen (ha.value hd) (hb.value he) hrefused
          · rcases ih hen hdn (hb.value he) (ha.value hd) hrefused with ⟨x, y, hclash⟩
            exact ⟨x, y, hclash.swap⟩
        rcases hclash with ⟨x, y, hclash⟩
        exact ⟨x, y, hclash.lift (fun _ => Within.value hd) fun _ => Within.value he⟩
      · split at hstep
        · cases hstep
        · exact ⟨_, _, clash_of_differ hstep⟩
      · exact ⟨_, _, clash_of_differ hstep⟩

theorem agree_refused {a b : Value} (ha : MapsReachable a) (hb : MapsReachable b) {error : Error}
    (herror : (a.agree b).eval = .error error) :
    exists x y, Clash a b x y error :=
  agree_refused_of_height (Nat.le_max_left a.height b.height) (Nat.le_max_right _ _) ha hb herror

/-! ## What is refused -/

theorem answer_unhashable_iff {m : ValueMap} (hm : m.Reachable keying)
    {request : Request Value Value} {key : Value} (hrequest : request.key? = some key)
    (name : String) :
    (m.answer keying request).eval = .error (.unhashableKey name) ↔
      key.hash.eval = .error (.unhashableKey name) := by
  constructor
  · intro herror
    cases hhash : key.hash.eval with
    | error error =>
        cases (hm.sound.answer_of_unhashable hrequest hhash).symm.trans herror
        rfl
    | ok word =>
        rcases hm.sound.answer_of_hashable comparesHashable hrequest ⟨word, hhash⟩ with
          ⟨found, _hsearched, hiff⟩
        rcases Dictionary.refusalAfter_ok ((hiff _).mp herror) with hname | hname
        · cases hname
        · cases hname
  · intro hhash
    exact hm.sound.answer_of_unhashable hrequest hhash

/--
Values that have a hash can be compared. So a map that can be reached refuses a request about a
key as hashing the key is refused, and else only because the search for the key found an entry or
found none. Values in which all maps can be reached, or two such maps, are refused comparison only
for two things in them of which one cannot be compared. None of this depends on what cells keep
that are faithful to the lists in the values.
-/
theorem refusals_accounted_for :
    (forall a b : Value, keying.Hashable a -> keying.Hashable b ->
        exists answer, (a.agree b).eval = .ok answer) ∧
      (forall (m : ValueMap) (request : Request Value Value) (key : Value),
        m.Reachable keying -> request.key? = some key ->
          (forall name, (m.answer keying request).eval = .error (.unhashableKey name) ↔
            key.hash.eval = .error (.unhashableKey name)) ∧
          (forall error, key.hash.eval = .error error ->
            (m.answer keying request).eval = .error error ∧
              exists x : Value, x.Within key ∧ x.isHashable = false ∧
                error = .unhashableKey x.typeName) ∧
          (keying.Hashable key -> exists found, m.Searched keying key (.ok found) ∧
            forall error, (m.answer keying request).eval = .error error ↔
              Dictionary.refusalAfter request (.ok found) = some error) ∧
          forall Known, m.KeysKnown (ListsKnown Known) -> ListsKnown Known key ->
            (m.answer keying request).Plain Known) ∧
      (forall a b : Value, MapsReachable a -> MapsReachable b ->
        forall error, (a.agree b).eval = .error error -> exists x y, Clash a b x y error) ∧
      (forall l r : ValueMap, MapsReachable (map l) -> MapsReachable (map r) ->
        forall error, (l.agree keying agree r).eval = .error error ->
          exists x y, Clash (map l) (map r) x y error) ∧
      (forall Known a b, ListsKnown Known a -> ListsKnown Known b -> (a.agree b).Plain Known) ∧
      forall Known (l r : ValueMap), ListsKnown Known (map l) -> ListsKnown Known (map r) ->
        (l.agree keying agree r).Plain Known := by
  refine ⟨fun _ _ => agree_answers_of_height (Nat.le_refl _), ?_,
    fun _ _ ha hb _ => agree_refused ha hb, ?_, fun _ _ _ => plain_agree,
    fun _ _ _ => plain_agree_maps⟩
  · intro m request key hm hrequest
    refine ⟨answer_unhashable_iff hm hrequest, ?_,
      hm.sound.answer_of_hashable comparesHashable hrequest, ?_⟩
    · intro error hhash
      exact ⟨hm.sound.answer_of_unhashable hrequest hhash, hash_refused hhash⟩
    · intro Known hknown hkey
      apply Dictionary.plain_answer plain_keying hknown
      intro key' hkey'
      cases hrequest.symm.trans hkey'
      exact hkey
  · intro l r hl hr error herror
    exact agree_refused hl hr ((agree_map l r).trans herror)

theorem Built.within {v x : Value} (hv : v.Built) (hx : x.Within v) :
    x.Built := by
  induction hx with
  | self =>
      exact hv
  | element hmem _hx ih =>
      cases hv with
      | list _hcounted helements =>
          exact ih (helements _ hmem)
  | key hentry _hx ih =>
      cases hv with
      | map _hreachable hkeys _hvalues =>
          exact ih (hkeys _ hentry)
  | value hentry _hx ih =>
      cases hv with
      | map _hreachable _hkeys hvalues =>
          exact ih (hvalues _ hentry)

theorem Built.mapsReachable {v : Value} (hv : v.Built) :
    MapsReachable v :=
  fun _ hm => (hv.within hm).reachable

def handlers : ValueMap :=
  (Dictionary.withPolicy .standard).added (Fnv.hash (0 :: Bytes.ofInt64 1)).toInt64
    (integer 1) (function (Handle.ofIdentity "callback" 7))

theorem built_handlers :
    (map handlers).Built :=
  built_put (built_withPolicy .standard) (Built.integer 1) (Built.function _) rfl

/-- A function is refused as soon as it has to be compared, a map as soon as it is a key. -/
theorem refusals_accounted_for_handlers :
    (exists answer, (splitZero.agree appendedZero).eval = .ok answer) ∧
      (handlers.answer keying (.get (map handlers))).eval = .error (.unhashableKey "map") ∧
      (exists found, handlers.Searched keying (integer 1) (.ok found) ∧
        Dictionary.refusalAfter (.put (integer 1) (integer 2)) (.ok found) =
          some .duplicateKey) ∧
      (exists x y, Clash (map handlers) (map (singleton 1 ⟨0⟩)) x y
        (.incomparable "function" "float")) ∧
      (handlers.agree keying agree (singleton 1 ⟨0⟩)).eval =
        .error (.incomparable "function" "float") := by
  rcases refusals_accounted_for with ⟨hanswers, hrequests, _hvalues, hmaps, _hplain⟩
  have hreachable : handlers.Reachable keying := built_handlers.reachable
  have hclash : (handlers.agree keying agree (singleton 1 ⟨0⟩)).eval =
      .error (.incomparable "function" "float") := by
    rfl
  refine ⟨hanswers _ _ ⟨_, rfl⟩ ⟨_, rfl⟩, ?_, ?_, ?_, hclash⟩
  · exact ((hrequests _ (.get (map handlers)) _ hreachable rfl).1 "map").mpr rfl
  · have hput := hrequests _ (.put (integer 1) (integer 2)) _ hreachable rfl
    rcases hput.2.2.1 ⟨_, rfl⟩ with ⟨found, hsearched, hiff⟩
    exact ⟨found, hsearched, (hiff _).mp rfl⟩
  · exact hmaps _ _ built_handlers.mapsReachable (built_singleton 1 ⟨0⟩).mapsReachable _ hclash

/-- The map that is left when the one function of `handlers` is deleted: a tombstone. -/
def forgotten : ValueMap :=
  match (handlers.erase keying (integer 1)).eval with
  | .ok (_, smaller) => smaller
  | .error _ => .empty

theorem built_forgotten :
    (map forgotten).Built := by
  have herase : (handlers.erase keying (integer 1)).eval = .ok (true, forgotten) := by
    rfl
  exact built_erase built_handlers herase

end Value

end ValueStore
