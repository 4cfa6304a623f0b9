import ValueStore.Proofs.Dictionary.Comparison
import ValueStore.Proofs.Dictionary.Verdict
import ValueStore.Proofs.Value.Refusals

/-!
# What comparing two maps answers

Equality of built values is symmetric, so of two maps with equally many entries the first
entry of the left one that has no match in the right one decides. The live entries alone
decide whether the answer is yes, but between no and a refusal the order in which the
left map is visited may decide, and with it the order in which its entries were put.
-/

namespace ValueStore

namespace Value

theorem built_entries {m : ValueMap} (hm : (map m).Built) :
    (m.KeysKnown fun v => v.Built ∧ keying.Hashable v) ∧ m.ValuesKnown Built := by
  cases hm with
  | map hreachable hkeys hvalues =>
      refine ⟨?_, hvalues⟩
      intro entry hentry
      exact ⟨hkeys entry hentry, hreachable.sound.keysHashable entry hentry⟩

theorem agree_maps_eval_iff {l r : ValueMap} (hl : (map l).Built) (hr : (map r).Built)
    (hsize : l.size = r.size) {outcome : Except Error Bool} :
    (l.agree keying agree r).eval = outcome ↔
      Dictionary.Decided keying agree r.toList l.toList outcome := by
  rcases built_entries hl with ⟨hlKeys, hlValues⟩
  rcases built_entries hr with ⟨hrKeys, hrValues⟩
  apply hl.reachable.sound.agree_eval_iff hr.reachable.sound lawful_built hlKeys hrKeys ?_ hsize
  intro d hd e he
  exact partialEquivalence_built.symm d.2 e.2 (hlValues d hd) (hrValues e he)

theorem agree_maps_yes_congr {a a' b b' : ValueMap} (ha : (map a).Built) (ha' : (map a').Built)
    (hb : (map b).Built) (hb' : (map b').Built) (hleft : a.toList.Perm a'.toList)
    (hright : b.toList.Perm b'.toList) :
    (a.agree keying agree b).eval = .ok true ↔ (a'.agree keying agree b').eval = .ok true := by
  have hequal : forall {l r : ValueMap}, (map l).Built -> (map r).Built ->
      ((l.agree keying agree r).eval = .ok true ↔ l.size = r.size ∧
        Dictionary.Covers keying agree l r ∧ Dictionary.Covers keying agree r l) :=
    fun hl hr => hl.reachable.sound.agree_eq_true_iff hr.reachable.sound lawful_built
      (built_entries hl).1 (built_entries hr).1 agree
  have haSize := ha.reachable.sound.size_eq_of_perm ha'.reachable.sound hleft
  have hbSize := hb.reachable.sound.size_eq_of_perm hb'.reachable.sound hright
  rw [hequal ha hb, hequal ha' hb', haSize, hbSize, Dictionary.covers_congr hleft hright,
    Dictionary.covers_congr hright hleft]

/--
Maps with unequally many entries are not equal. Otherwise the first entry of the left map that has
no match in the right one decides, and the order of the right map never shows. Two maps are equal
exactly if any two with the same live entries are. Where they are not, it is the same for all of
these whether the answer is no or a refusal, unless one entry of the left map differs and another
one is refused: then visiting it in one order comes to no, and in another to a refusal. Nor does
the answer depend on what cells keep.
-/
theorem agree_decided_in_order {a a' b b' : ValueMap} (ha : (map a).Built)
    (ha' : (map a').Built) (hb : (map b).Built) (hb' : (map b').Built)
    (hleft : a.toList.Perm a'.toList) (hright : b.toList.Perm b'.toList) :
    (a.size ≠ b.size ->
        (a.agree keying agree b).eval = .ok false ∧ (a'.agree keying agree b').eval = .ok false) ∧
      (a.size = b.size -> forall outcome, (a.agree keying agree b).eval = outcome ↔
        Dictionary.Decided keying agree b.toList a.toList outcome) ∧
      (a.toList = a'.toList ->
        (a.agree keying agree b).eval = (a'.agree keying agree b').eval) ∧
      ((a.agree keying agree b).eval = .ok true ↔
        (a'.agree keying agree b').eval = .ok true) ∧
      (¬Dictionary.Torn keying agree b.toList a.toList ->
        (a.agree keying agree b).eval.toOption = (a'.agree keying agree b').eval.toOption) ∧
      (Dictionary.Torn keying agree b.toList a.toList ->
        (exists order, order.Perm a.toList ∧
          Dictionary.Decided keying agree b.toList order (.ok false)) ∧
        exists order error, order.Perm a.toList ∧
          Dictionary.Decided keying agree b.toList order (.error error)) ∧
      forall Known, ListsKnown Known (map a) -> ListsKnown Known (map b) ->
        (a.agree keying agree b).Plain Known := by
  have haSize := ha.reachable.sound.size_eq_of_perm ha'.reachable.sound hleft
  have hbSize := hb.reachable.sound.size_eq_of_perm hb'.reachable.sound hright
  have hunequal : a.size ≠ b.size ->
      (a.agree keying agree b).eval = .ok false ∧
        (a'.agree keying agree b').eval = .ok false := by
    intro hsize
    refine ⟨Dictionary.agree_eval_of_size_ne _ _ hsize, ?_⟩
    rw [haSize, hbSize] at hsize
    exact Dictionary.agree_eval_of_size_ne _ _ hsize
  -- the entries of the right map count, and not their order
  have hdecided : a.size = b.size ->
      Dictionary.Decided keying agree b.toList a.toList (a.agree keying agree b).eval ∧
        Dictionary.Decided keying agree b.toList a'.toList (a'.agree keying agree b').eval := by
    intro hsize
    refine ⟨(agree_maps_eval_iff ha hb hsize).mp rfl, ?_⟩
    rw [haSize, hbSize] at hsize
    exact ((agree_maps_eval_iff ha' hb' hsize).mp rfl).perm hright.symm
  have hyes := agree_maps_yes_congr ha ha' hb hb' hleft hright
  refine ⟨hunequal, fun hsize _ => agree_maps_eval_iff ha hb hsize, ?_, hyes, ?_, ?_,
    fun _ => plain_agree_maps⟩
  · intro hsame
    by_cases hsize : a.size = b.size
    · apply (agree_maps_eval_iff ha hb hsize).mpr
      rw [hsame]
      exact (hdecided hsize).2
    · rw [(hunequal hsize).1, (hunequal hsize).2]
  · intro htorn
    by_cases hsize : a.size = b.size
    · by_cases hequal : (a.agree keying agree b).eval = .ok true
      · rw [hequal, hyes.mp hequal]
      · exact (hdecided hsize).1.toOption_eq hleft htorn (hdecided hsize).2 hequal
          fun hequal' => hequal (hyes.mpr hequal')
    · rw [(hunequal hsize).1, (hunequal hsize).2]
  · intro htorn
    rcases htorn.differs with ⟨d, hd, hdiffers⟩
    rcases htorn.refused with ⟨e, he, error, hrefused⟩
    rcases hrefused.exists_order he (by simp) with ⟨order, hperm, hdecided⟩
    exact ⟨hdiffers.exists_order hd (by simp), order, error, hperm, hdecided⟩

/-! ## A comparison torn apart -/

def filed (m : ValueMap) (n : Int64) (v : Value) : ValueMap :=
  m.added (Fnv.hash (0 :: Bytes.ofInt64 n)).toInt64 (integer n) v

theorem built_filed {m : ValueMap} {n : Int64} {v : Value} (hm : (map m).Built) (hv : v.Built)
    (hput : (m.put keying (integer n) v).eval = .ok (filed m n v)) :
    (map (filed m n v)).Built :=
  built_put hm (Built.integer n) hv hput

def numbered (n m : Int64) : ValueMap :=
  filed (Dictionary.withPolicy .standard) n (integer m)

theorem built_numbered (n m : Int64) :
    (map (numbered n m)).Built :=
  built_filed (built_withPolicy .standard) (Built.integer m) rfl

def callback : Value :=
  function (Handle.ofIdentity "callback" 7)

def callbackThenZero : ValueMap :=
  filed handlers 2 (integer 0)

def zeroThenCallback : ValueMap :=
  filed (numbered 2 0) 1 callback

def zeroThenOne : ValueMap :=
  filed (numbered 1 0) 2 (integer 1)

theorem built_callbackThenZero :
    (map callbackThenZero).Built :=
  built_filed built_handlers (Built.integer 0) rfl

theorem built_zeroThenCallback :
    (map zeroThenCallback).Built :=
  built_filed (built_numbered 2 0) (Built.function _) rfl

theorem built_zeroThenOne :
    (map zeroThenOne).Built :=
  built_filed (built_numbered 1 0) (Built.integer 1) rfl

theorem callbackThenZero_perm_zeroThenCallback :
    callbackThenZero.toList.Perm zeroThenCallback.toList := by
  have hentries : callbackThenZero.toList = [(integer 1, callback), (integer 2, integer 0)] := by
    rfl
  have hreversed : zeroThenCallback.toList = [(integer 2, integer 0), (integer 1, callback)] := by
    rfl
  rw [hentries, hreversed]
  exact List.Perm.swap _ _ _

/-- With its entries in either order the map is refused or differs, by the first of them. -/
theorem agree_decided_in_order_callback :
    callbackThenZero.toList.Perm zeroThenCallback.toList ∧
      Dictionary.Decided keying agree zeroThenOne.toList callbackThenZero.toList
        (.error (.incomparable "function" "integer")) ∧
      Dictionary.Decided keying agree zeroThenOne.toList zeroThenCallback.toList
        (.ok false) := by
  have hperm := callbackThenZero_perm_zeroThenCallback
  have hcallback := agree_decided_in_order built_callbackThenZero built_zeroThenCallback
    built_zeroThenOne built_zeroThenOne hperm (List.Perm.refl _)
  have hzero := agree_decided_in_order built_zeroThenCallback built_callbackThenZero
    built_zeroThenOne built_zeroThenOne hperm.symm (List.Perm.refl _)
  exact ⟨hperm, (hcallback.2.1 rfl _).mp rfl, (hzero.2.1 rfl _).mp rfl⟩

def callbackLast : ValueMap :=
  filed (filed (filed (numbered 2 0) 4 (integer 0)) 3 (integer 0)) 1 callback

def oneUnderTwo : ValueMap :=
  filed (filed (filed (numbered 1 0) 2 (integer 1)) 3 (integer 0)) 4 (integer 0)

theorem built_callbackLast :
    (map callbackLast).Built :=
  built_filed (built_filed (built_filed (built_numbered 2 0) (Built.integer 0) rfl)
    (Built.integer 0) rfl) (Built.function _) rfl

theorem built_oneUnderTwo :
    (map oneUnderTwo).Built :=
  built_filed (built_filed (built_filed (built_numbered 1 0) (Built.integer 1) rfl)
    (Built.integer 0) rfl) (Built.integer 0) rfl

/-- The order in which entries were put tells a refusal from no, and so does rebuilding a map. -/
theorem agree_told_by_order :
    (exists a a' b : ValueMap, (map a).Built ∧ (map a').Built ∧ (map b).Built ∧
      a.toList.Perm a'.toList ∧
      (a.agree keying agree b).eval = .error (.incomparable "function" "integer") ∧
      (a'.agree keying agree b).eval = .ok false) ∧
    exists a b : ValueMap, (map a).Built ∧ (map a.compact).Built ∧ (map b).Built ∧
      a.toList.Perm a.compact.toList ∧
      (a.agree keying agree b).eval = .error (.incomparable "function" "integer") ∧
      (a.compact.agree keying agree b).eval = .ok false := by
  constructor
  · exact ⟨callbackThenZero, zeroThenCallback, zeroThenOne, built_callbackThenZero,
      built_zeroThenCallback, built_zeroThenOne, callbackThenZero_perm_zeroThenCallback, rfl, rfl⟩
  · have hcompact := Dictionary.toList_compact built_callbackLast.reachable.sound.index
    exact ⟨callbackLast, oneUnderTwo, built_callbackLast, built_compact built_callbackLast,
      built_oneUnderTwo, hcompact.symm, rfl, rfl⟩

end Value

end ValueStore
