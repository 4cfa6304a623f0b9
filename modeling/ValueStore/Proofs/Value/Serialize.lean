import ValueStore.Proofs.Dictionary.Iteration
import ValueStore.Proofs.Json.Format
import ValueStore.Proofs.Value.Built
import ValueStore.Proofs.Value.Writable

/-!
# Writing values

In a format whose maps have text for keys a value is written exactly if there is no
obstacle, and is refused for the first obstacle else. What is written depends on the
elements of lists and the live entries of maps only: not on the chains of a list, on what
a tombstone still holds, or on what cells keep.

The format is told the length of every list and the size of every map before it is handed
what is in them. It may rely on that, so it matters that lists count their chains rightly
and that maps have been made by adding, deleting and rebuilding.
-/

namespace ValueStore

namespace Value

variable {π ω σ τ : Type}

structure Proper (v : Value) : Prop where
  maps : MapsReachable v
  lists : ListsKnown Sequence.Counted v

theorem Built.proper {v : Value} (hv : v.Built) :
    v.Proper :=
  ⟨hv.mapsReachable, hv.counted⟩

theorem Proper.element {items : Sequence Value} (h : (list items).Proper) {v : Value}
    (hv : v ∈ items.toList) :
    v.Proper :=
  ⟨h.maps.element hv, h.lists.element hv⟩

theorem Proper.value {m : ValueMap} (h : (map m).Proper) {entry : Value × Value}
    (hentry : entry ∈ m.toList) :
    entry.2.Proper :=
  ⟨h.maps.value hentry, h.lists.values entry hentry⟩

theorem Proper.key_hashable {m : ValueMap} (h : (map m).Proper) {entry : Value × Value}
    (hentry : entry ∈ m.toList) :
    keying.Hashable entry.1 := by
  rcases h.maps.sound.exists_placed hentry with ⟨hash, hplaced, _hcandidate⟩
  exact hplaced.hashable

theorem Proper.eval_serialize_list {items : Sequence Value} (h : (list items).Proper)
    (format : ListFormat Value σ ω) :
    (items.serialize format).eval =
      (format.write (some items.toList.length) items.toList).eval :=
  Sequence.eval_serialize format h.lists.items

theorem Proper.serialize_map {m : ValueMap} (h : (map m).Proper)
    (format : MapFormat Value Value Value τ ω) :
    m.serialize format = format.write (some m.toList.length) m.toList :=
  h.maps.sound.kept.iteratesExactly.serialized format

def Obstacle.refusal (custom : String -> Error) (listKey floatKey : Error) : Obstacle -> Error
  | .thing typeName => custom (unencodable typeName)
  | .listKey => listKey
  | .floatKey => floatKey

section

variable {format : Format Value π ω σ τ} {AtKey AtValue : π -> Prop} {listKey floatKey : Error}
  {place : π}

/-! ## Keys -/

theorem serializeAt_list_key (h : format.TextKeyed AtKey AtValue listKey floatKey)
    (hplace : AtKey place) (bound : Nat) (items : Sequence Value) :
    (serializeAt format (bound + 1) (list items) place).eval = .error listKey :=
  Action.eval_bind_of_error (h.listKey place _ hplace) _

theorem serialize_key_answers (h : format.TextKeyed AtKey AtValue listKey floatKey)
    (hplace : AtKey place) {key : Value} (hhashable : keying.Hashable key)
    (htext : key.isTextKey = true) :
    exists text, (key.serialize format place).eval = .ok text := by
  have hkind := isHashable_of_hashable hhashable
  cases key with
  | integer n =>
      exact h.integer place n (Or.inl hplace)
  | float x =>
      exact h.float place x (Or.inl ⟨hplace, htext⟩)
  | string s =>
      exact h.string place s (Or.inl hplace)
  | boolean b =>
      exact h.boolean place b (Or.inl hplace)
  | list items =>
      cases htext
  | _ =>
      cases hkind

theorem KeyObstacle.refused (h : format.TextKeyed AtKey AtValue listKey floatKey)
    (hplace : AtKey place) {key : Value} {obstacle : Obstacle} (hkey : KeyObstacle key obstacle) :
    (key.serialize format place).eval =
      .error (obstacle.refusal format.custom listKey floatKey) := by
  cases hkey with
  | list items =>
      exact serializeAt_list_key h hplace _ items
  | @float x hfinite =>
      exact h.floatKey place x hplace hfinite

theorem SameContents.serialize_key_eval (h : format.TextKeyed AtKey AtValue listKey floatKey)
    (hplace : AtKey place) {a b : Value} (hsame : SameContents a b)
    (ha : keying.Hashable a) :
    (a.serialize format place).eval = (b.serialize format place).eval := by
  cases hsame with
  | self =>
      rfl
  | @list xs ys _hlength _helements =>
      exact (serializeAt_list_key h hplace _ xs).trans (serializeAt_list_key h hplace _ ys).symm
  | map _hlength _hkeys _hvalues =>
      cases isHashable_of_hashable ha

/-! ## Any bound from the height on -/

theorem serializeAt_key_eval (h : format.TextKeyed AtKey AtValue listKey floatKey)
    (hplace : AtKey place) {key : Value} (hhashable : keying.Hashable key) {bound : Nat}
    (hbound : key.height ≤ bound) :
    (serializeAt format bound key place).eval = (key.serialize format place).eval := by
  rcases Nat.exists_eq_add_of_le' (key.height_pos.trans_le hbound) with ⟨bound, rfl⟩
  have hkind := isHashable_of_hashable hhashable
  cases key with
  | list items =>
      exact (serializeAt_list_key h hplace _ items).trans
        (serializeAt_list_key h hplace _ items).symm
  | integer n =>
      rfl
  | float x =>
      rfl
  | string s =>
      rfl
  | boolean b =>
      rfl
  | _ =>
      cases hkind

theorem serializeAt_list (h : format.TextKeyed AtKey AtValue listKey floatKey)
    (hplace : AtValue place) {items : Sequence Value} (hitems : (list items).Proper) {bound : Nat}
    (hbound : forall v, v ∈ items.toList -> forall place, AtValue place ->
      (serializeAt format bound v place).eval = (v.serialize format place).eval) :
    (serializeAt format (bound + 1) (list items) place).eval =
      ((format.list place (serialize format)).write (some items.toList.length)
        items.toList).eval := by
  rcases h.lists with ⟨Awaits, hlists⟩
  refine (hitems.eval_serialize_list _).trans (hlists.congr hplace ?_)
  exact List.forall₂_same.mpr hbound

theorem serializeAt_map (h : format.TextKeyed AtKey AtValue listKey floatKey)
    (hplace : AtValue place) {m : ValueMap} (hm : (map m).Proper) {bound : Nat}
    (hkeys : forall entry, entry ∈ m.toList -> entry.1.height ≤ bound)
    (hvalues : forall entry, entry ∈ m.toList -> forall place, AtValue place ->
      (serializeAt format bound entry.2 place).eval = (entry.2.serialize format place).eval) :
    (serializeAt format (bound + 1) (map m) place).eval =
      ((format.map place (serialize format) (serialize format)).write (some m.toList.length)
        m.toList).eval := by
  rcases h.maps with ⟨Awaits, hmaps⟩
  show (m.serialize _).eval = _
  rw [hm.serialize_map]
  apply hmaps.congr hplace
  rw [List.forall₂_same]
  intro entry hentry
  refine ⟨fun place hplace => ?_, hvalues entry hentry⟩
  exact serializeAt_key_eval h hplace (hm.key_hashable hentry) (hkeys entry hentry)

theorem serializeAt_eval (h : format.TextKeyed AtKey AtValue listKey floatKey) {bound : Nat}
    {v : Value} (hbound : v.height ≤ bound) (hv : v.Proper) (hplace : AtValue place) :
    (serializeAt format bound v place).eval = (v.serialize format place).eval := by
  induction bound using Nat.strong_induction_on generalizing v place with
  | _ bound ih =>
      rcases Nat.exists_eq_add_of_le' (v.height_pos.trans_le hbound) with ⟨bound, rfl⟩
      -- the height itself is one of the bounds for which the parts are written alike
      cases v with
      | list items =>
          have hwritten : forall n, n ≤ bound -> (list items).height ≤ n + 1 ->
              (serializeAt format (n + 1) (list items) place).eval =
                ((format.list place (serialize format)).write (some items.toList.length)
                  items.toList).eval := by
            intro n hn hheight
            apply serializeAt_list h hplace hv
            intro v hmem place hplace
            have hlt := (height_lt_of_mem_list hmem).trans_le hheight
            exact ih n (Nat.lt_succ_of_le hn) (Nat.le_of_lt_succ hlt) (hv.element hmem) hplace
          exact (hwritten bound (Nat.le_refl _) hbound).trans
            (hwritten (sequenceHeight items) (Nat.le_of_succ_le_succ hbound) (Nat.le_refl _)).symm
      | map m =>
          have hwritten : forall n, n ≤ bound -> (map m).height ≤ n + 1 ->
              (serializeAt format (n + 1) (map m) place).eval =
                ((format.map place (serialize format) (serialize format)).write
                  (some m.toList.length) m.toList).eval := by
            intro n hn hheight
            apply serializeAt_map h hplace hv
            · exact fun entry hmem =>
                Nat.le_of_lt_succ ((key_height_lt_of_mem_map hmem).trans_le hheight)
            · intro entry hmem place hplace
              have hlt := (value_height_lt_of_mem_map hmem).trans_le hheight
              exact ih n (Nat.lt_succ_of_le hn) (Nat.le_of_lt_succ hlt) (hv.value hmem) hplace
          exact (hwritten bound (Nat.le_refl _) hbound).trans
            (hwritten (dictionaryHeight m) (Nat.le_of_succ_le_succ hbound) (Nat.le_refl _)).symm
      | _ =>
          rfl

theorem serialize_list (h : format.TextKeyed AtKey AtValue listKey floatKey)
    (hplace : AtValue place) {items : Sequence Value} (hitems : (list items).Proper) :
    ((list items).serialize format place).eval =
      ((format.list place (serialize format)).write (some items.toList.length)
        items.toList).eval := by
  apply serializeAt_list h hplace hitems
  intro v hmem place hplace
  exact serializeAt_eval h (Nat.le_of_lt_succ (height_lt_of_mem_list hmem))
    (hitems.element hmem) hplace

theorem serialize_map (h : format.TextKeyed AtKey AtValue listKey floatKey)
    (hplace : AtValue place) {m : ValueMap} (hm : (map m).Proper) :
    ((map m).serialize format place).eval =
      ((format.map place (serialize format) (serialize format)).write (some m.toList.length)
        m.toList).eval := by
  apply serializeAt_map h hplace hm
  · exact fun entry hmem => Nat.le_of_lt_succ (key_height_lt_of_mem_map hmem)
  · intro entry hmem place hplace
    exact serializeAt_eval h (Nat.le_of_lt_succ (value_height_lt_of_mem_map hmem))
      (hm.value hmem) hplace

/-! ## Writing, or the first obstacle -/

theorem serialize_answers_of_height (h : format.TextKeyed AtKey AtValue listKey floatKey)
    {n : Nat} {v : Value} (hn : v.height ≤ n) (hproper : v.Proper) (hv : v.Writable)
    (hplace : AtValue place) :
    exists text, (v.serialize format place).eval = .ok text := by
  induction n generalizing v place with
  | zero =>
      exact absurd v.height_pos (Nat.not_lt.mpr hn)
  | succ n ih =>
      cases v with
      | integer n =>
          exact h.integer place n (Or.inr hplace)
      | float x =>
          exact h.float place x (Or.inr hplace)
      | string s =>
          exact h.string place s (Or.inr hplace)
      | boolean b =>
          exact h.boolean place b (Or.inr hplace)
      | list items =>
          have helements := writable_list_iff.mp hv
          rcases h.lists with ⟨Awaits, hlists⟩
          rw [serialize_list h hplace hproper]
          apply hlists.answers hplace
          intro v hmem place hplace
          exact ih (Nat.le_of_lt_succ ((height_lt_of_mem_list hmem).trans_le hn))
            (hproper.element hmem) (helements v hmem) hplace
      | map m =>
          have hentries := writable_map_iff.mp hv
          rcases h.maps with ⟨Awaits, hmaps⟩
          rw [serialize_map h hplace hproper]
          apply hmaps.answers hplace
          · intro entry hmem place hplace
            exact serialize_key_answers h hplace (hproper.key_hashable hmem) (hentries entry hmem).1
          · intro entry hmem place hplace
            exact ih (Nat.le_of_lt_succ ((value_height_lt_of_mem_map hmem).trans_le hn))
              (hproper.value hmem) (hentries entry hmem).2 hplace
      | function handle =>
          cases hv.things _ Held.self
      | channel handle =>
          cases hv.things _ Held.self
      | foreign handle =>
          cases hv.things _ Held.self

theorem serialize_answers (h : format.TextKeyed AtKey AtValue listKey floatKey) {v : Value}
    (hproper : v.Proper) (hv : v.Writable) (hplace : AtValue place) :
    exists text, (v.serialize format place).eval = .ok text :=
  serialize_answers_of_height h (Nat.le_refl v.height) hproper hv hplace

theorem serialize_map_of_refused (h : format.TextKeyed AtKey AtValue listKey floatKey)
    (hplace : AtValue place) {m : ValueMap} (hm : (map m).Proper)
    {before after : List (Value × Value)} {entry : Value × Value} {error : Error}
    (hentries : m.toList = before ++ entry :: after)
    (hbefore : forall d, d ∈ before -> d.1.isTextKey = true ∧ d.2.Writable)
    (hrefused : (forall place, AtKey place ->
        (entry.1.serialize format place).eval = .error error) ∨
      (forall place, AtKey place -> exists text, (entry.1.serialize format place).eval = .ok text) ∧
        forall place, AtValue place -> (entry.2.serialize format place).eval = .error error) :
    ((map m).serialize format place).eval = .error error := by
  rcases h.maps with ⟨Awaits, hmaps⟩
  rw [serialize_map h hplace hm, hentries]
  refine hmaps.refused hplace ?_ hrefused
  intro d hd
  have hmem : d ∈ m.toList := by
    rw [hentries]
    exact List.mem_append_left _ hd
  constructor
  · exact fun place hplace =>
      serialize_key_answers h hplace (hm.key_hashable hmem) (hbefore d hd).1
  · exact fun place hplace => serialize_answers h (hm.value hmem) (hbefore d hd).2 hplace

theorem FirstObstacle.refused (h : format.TextKeyed AtKey AtValue listKey floatKey) {v : Value}
    {obstacle : Obstacle} (hv : FirstObstacle v obstacle) (hproper : v.Proper)
    (hplace : AtValue place) :
    (v.serialize format place).eval =
      .error (obstacle.refusal format.custom listKey floatKey) := by
  induction hv generalizing place with
  | @thing v hthing =>
      cases v with
      | function handle =>
          rfl
      | channel handle =>
          rfl
      | foreign handle =>
          rfl
      | _ =>
          cases hthing
  | @element items before after v obstacle hitems hbefore _hv ih =>
      have hmem : forall u, u ∈ before ++ v :: after -> u ∈ items.toList :=
        fun u hu => hitems ▸ hu
      rcases h.lists with ⟨Awaits, hlists⟩
      rw [serialize_list h hplace hproper, hitems]
      apply hlists.refused hplace
      · intro u hu place hplace
        exact serialize_answers h (hproper.element (hmem u (List.mem_append_left _ hu)))
          (hbefore u hu) hplace
      · intro place hplace
        exact ih (hproper.element (hmem v (List.mem_append_right _ List.mem_cons_self))) hplace
  | @key m before after entry obstacle hentries hbefore hobstacle =>
      apply serialize_map_of_refused h hplace hproper hentries hbefore
      exact Or.inl fun place hplace => hobstacle.refused h hplace
  | @value m before after entry obstacle hentries hbefore htext _hvalue ih =>
      have hmem : entry ∈ m.toList := by
        rw [hentries]
        exact List.mem_append_right _ List.mem_cons_self
      apply serialize_map_of_refused h hplace hproper hentries hbefore
      refine Or.inr ⟨fun place hplace => ?_, fun place hplace => ih (hproper.value hmem) hplace⟩
      exact serialize_key_answers h hplace (hproper.key_hashable hmem) htext

/-! ## What does not show -/

theorem SameContents.serialize_eval (h : format.TextKeyed AtKey AtValue listKey floatKey)
    {a b : Value} (hsame : SameContents a b) (ha : a.Proper) (hb : b.Proper)
    (hplace : AtValue place) :
    (a.serialize format place).eval = (b.serialize format place).eval := by
  induction hsame generalizing place with
  | self v =>
      rfl
  | list hlength _helements ih =>
      rcases h.lists with ⟨Awaits, hlists⟩
      rw [serialize_list h hplace ha, serialize_list h hplace hb]
      apply hlists.congr hplace
      rw [List.forall₂_iff_zip]
      refine ⟨hlength, fun hmem place hplace => ?_⟩
      rcases List.of_mem_zip hmem with ⟨hx, hy⟩
      exact ih _ hmem (ha.element hx) (hb.element hy) hplace
  | map hlength hkeys _hvalues _ihkeys ihvalues =>
      rcases h.maps with ⟨Awaits, hmaps⟩
      rw [serialize_map h hplace ha, serialize_map h hplace hb]
      apply hmaps.congr hplace
      rw [List.forall₂_iff_zip]
      refine ⟨hlength, fun hmem => ?_⟩
      rcases List.of_mem_zip hmem with ⟨hd, he⟩
      constructor
      · exact fun place hplace =>
          (hkeys _ hmem).serialize_key_eval h hplace (ha.key_hashable hd)
      · exact fun place hplace => ihvalues _ hmem (ha.value hd) (hb.value he) hplace

end

theorem plain_serializeAt {format : Format Value π ω σ τ} {Known : Sequence Value -> Prop}
    (hformat : format.Plain Known) (bound : Nat) {v : Value} (hv : ListsKnown Known v)
    (place : π) :
    (serializeAt format bound v place).Plain Known := by
  induction bound generalizing v place with
  | zero =>
      exact Action.plain_fail _
  | succ bound ih =>
      cases v with
      | integer n =>
          exact hformat.integer place n
      | float x =>
          exact hformat.float place x
      | string s =>
          exact hformat.string place s
      | boolean b =>
          exact hformat.boolean place b
      | list items =>
          exact Sequence.plain_serialize (hformat.list (fun v hv place => ih hv place) place)
            hv.items fun v hmem => hv.element hmem
      | map m =>
          exact hformat.map (fun d hd place => ih (hv.keys d hd) place)
            (fun d hd place => ih (hv.values d hd) place) place
      | _ =>
          exact Action.plain_fail _

/--
In a format whose maps have text for keys, a value in which all lists are counted rightly and all
maps can be reached is written exactly if nothing in it stands in the way, and is otherwise
refused for the first thing that does. What comes of it depends on the elements of its lists and
the live entries of its maps only, whether it is written does not even depend on their order in
a map, and if the format does not mind what cells keep, neither depends on that.
-/
theorem serialize_outcome {format : Format Value π ω σ τ} {AtKey AtValue : π -> Prop}
    {listKey floatKey : Error} (h : format.TextKeyed AtKey AtValue listKey floatKey) {place : π}
    (hplace : AtValue place) {v : Value} (hv : v.Proper) :
    ((exists text, (v.serialize format place).eval = .ok text) ↔ v.Writable) ∧
      (forall error, (v.serialize format place).eval = .error error ↔
        exists obstacle, FirstObstacle v obstacle ∧
          error = obstacle.refusal format.custom listKey floatKey) ∧
      (forall w : Value, w.Proper -> SameContents v w ->
        (w.serialize format place).eval = (v.serialize format place).eval) ∧
      (forall l r : ValueMap, v = map l -> (map r).Proper -> l.toList.Perm r.toList ->
        ((exists text, (v.serialize format place).eval = .ok text) ↔
          exists text, ((map r).serialize format place).eval = .ok text)) ∧
      forall Known, format.Plain Known -> ListsKnown Known v ->
        (v.serialize format place).Plain Known := by
  have hwritten : forall v : Value, v.Proper ->
      ((exists text, (v.serialize format place).eval = .ok text) ↔ v.Writable) := by
    intro v hv
    constructor
    · intro htext
      rcases htext with ⟨text, htext⟩
      by_contra hnot
      rcases exists_firstObstacle_of_height (Nat.le_refl v.height) hnot with
        ⟨obstacle, hobstacle⟩
      cases htext.symm.trans (hobstacle.refused h hv hplace)
    · exact fun hwritable => serialize_answers h hv hwritable hplace
  refine ⟨hwritten v hv, ?_, fun w hw hsame => (hsame.serialize_eval h hv hw hplace).symm, ?_, ?_⟩
  · intro error
    constructor
    · intro hrefused
      have hnot : ¬v.Writable := by
        intro hwritable
        rcases serialize_answers h hv hwritable hplace with ⟨text, htext⟩
        cases htext.symm.trans hrefused
      rcases exists_firstObstacle_of_height (Nat.le_refl v.height) hnot with
        ⟨obstacle, hobstacle⟩
      exact ⟨obstacle, hobstacle,
        Except.error.inj (hrefused.symm.trans (hobstacle.refused h hv hplace))⟩
    · rintro ⟨obstacle, hobstacle, rfl⟩
      exact hobstacle.refused h hv hplace
  · intro l r hl hr hperm
    rw [hwritten v hv, hwritten (map r) hr, hl]
    exact writable_map_of_perm hperm
  · exact fun Known hformat hknown => plain_serializeAt hformat v.height hknown place

def listKeyed : ValueMap :=
  (Dictionary.withPolicy .standard).added (Fnv.hash (4 :: (Bytes.ofLength 0 ++ []))).toInt64
    (ofChains 0 [] []) (function (Handle.ofIdentity "callback" 7))

theorem built_listKeyed :
    (map listKeyed).Built :=
  built_put (built_withPolicy .standard)
    (built_ofChains 0 (List.forall_mem_nil _) (List.forall_mem_nil _)) (Built.function _) rfl

/-- A map with a tombstone, a thing, and a map with a list for a key, the thing behind the map. -/
def forgottenThenRefused : Value :=
  ofChains 1 [map forgotten] [channel (Handle.ofIdentity "pipe" 1), map listKeyed]

theorem built_forgottenThenRefused :
    forgottenThenRefused.Built := by
  apply built_ofChains
  · exact List.forall_mem_singleton.mpr built_forgotten
  · exact List.forall_mem_cons.mpr
      ⟨Built.channel _, List.forall_mem_singleton.mpr built_listKeyed⟩

theorem listsKnown_listKeyed {Known : Sequence Value -> Prop}
    (hempty : Known (Sequence.emptyAt 0)) :
    ListsKnown Known (map listKeyed) := by
  have hentries : listKeyed.toList =
      [(ofChains 0 [] [], function (Handle.ofIdentity "callback" 7))] :=
    rfl
  apply listsKnown_map
  · rw [hentries, List.forall_mem_singleton]
    exact listsKnown_ofChains hempty (List.forall_mem_nil _) (List.forall_mem_nil _)
  · rw [hentries, List.forall_mem_singleton]
    rintro items hitems
    cases hitems

theorem listsKnown_forgottenThenRefused :
    ListsKnown (OfEither (ofChains 0 [] []) forgottenThenRefused) forgottenThenRefused := by
  unfold forgottenThenRefused
  apply listsKnown_ofChains
  · exact Or.inr rfl
  · rw [List.forall_mem_singleton]
    exact listsKnown_map (List.forall_mem_nil _) (List.forall_mem_nil _)
  · rw [List.forall_mem_cons, List.forall_mem_singleton]
    constructor
    · rintro items hitems
      cases hitems
    · exact listsKnown_listKeyed (Or.inl rfl)

/--
The function in a tombstone is never met, and a key stands in the way before its value does, also
if lists are joined on the way.
-/
theorem serialize_outcome_forgotten :
    forgotten.tombstones = 1 ∧
      (exists text, ((map forgotten).serialize Json.format .value).eval = .ok text) ∧
      (forgottenThenRefused.serialize Json.format .value).eval = .error Json.listAsKey ∧
      (Cells.run (forgottenThenRefused.serialize Json.format .value) Cells.empty).1 =
        .error Json.listAsKey := by
  have hforgotten : (map forgotten).Writable :=
    writable_map_iff.mpr (List.forall_mem_nil _)
  have hkey : listKeyed.toList =
      [] ++ (ofChains 0 [] [], function (Handle.ofIdentity "callback" 7)) :: [] :=
    rfl
  have hobstacle : FirstObstacle (map listKeyed) .listKey :=
    FirstObstacle.key hkey (List.forall_mem_nil _) (KeyObstacle.list _)
  have hitems : Sequence.toList
      ⟨[map forgotten], 1, [channel (Handle.ofIdentity "pipe" 1), map listKeyed], 2, 1⟩ =
        [map forgotten] ++ map listKeyed :: [channel (Handle.ofIdentity "pipe" 1)] :=
    rfl
  rcases serialize_outcome Json.textKeyed_format rfl built_forgottenThenRefused.proper with
    ⟨_hwritten, hrefused, _hsame, _hperm, hplain⟩
  have heval := (hrefused Json.listAsKey).mpr
    ⟨.listKey, FirstObstacle.element hitems (List.forall_mem_singleton.mpr hforgotten)
      hobstacle, rfl⟩
  refine ⟨rfl, ?_, heval, ?_⟩
  · exact (serialize_outcome Json.textKeyed_format rfl built_forgotten.proper).1.mpr hforgotten
  · have hfaithful : (Cells.empty : Cells Value).Faithful
        (OfEither (ofChains 0 [] []) forgottenThenRefused) :=
      faithful_empty_ofEither Nat.zero_ne_one
    have hrun := hplain _ Json.plain_format listsKnown_forgottenThenRefused Cells.empty hfaithful
    exact hrun.1.trans heval

end Value

end ValueStore
