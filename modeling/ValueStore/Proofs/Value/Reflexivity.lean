import ValueStore.Proofs.Value.Equality

/-!
# Values that equal themselves

A value equals itself exactly if nothing in it equals nothing: no NaN, no function, no
channel and no handle without comparison by identity.
-/

namespace ValueStore

namespace Value

/-- A NaN, a function, a channel or a handle without comparison by identity. -/
def equalsNothing : Value -> Bool
  | float x => x.isNaN
  | function _ => true
  | channel _ => true
  | foreign handle => !handle.comparable
  | _ => false

theorem Equals.equalsNothing {a b : Value} (h : a.Equals b) :
    a.equalsNothing = false := by
  cases h.alike with
  | float hequal =>
      exact (Binary64.equal_eq_true_iff.mp hequal).1
  | foreign hcomparable =>
      simp [Value.equalsNothing, hcomparable]
  | _ =>
      rfl

theorem equals_self_list_iff {items : Sequence Value} (hitems : items.Counted) :
    (list items).Equals (list items) ↔ forall v, v ∈ items.toList -> v.Equals v := by
  unfold Equals
  rw [agree_list, Sequence.agree_self_iff hitems]

theorem equals_self_map_iff {m : ValueMap} (hm : (map m).Built) :
    (map m).Equals (map m) ↔
      forall entry, entry ∈ m.toList -> entry.1.Equals entry.1 ∧ entry.2.Equals entry.2 := by
  have hto : BuiltTo ((map m).height + 1) (map m) := ⟨hm, Nat.le_succ _⟩
  have hlawful := (partialEquivalence_builtTo (map m).height).lawful fun _ hv => hv.built
  unfold Equals
  rw [agree_map, hto.sound.agree_self_iff hlawful hto.keys]
  rfl

theorem Equals.within {a x : Value} (ha : a.Built) (h : a.Equals a) (hx : x.Within a) :
    x.Equals x := by
  induction hx with
  | self =>
      exact h
  | element hv _hx ih =>
      cases ha with
      | list hcounted helements =>
          exact ih (helements _ hv) ((equals_self_list_iff hcounted).mp h _ hv)
  | key hentry _hx ih =>
      have hparts := (equals_self_map_iff ha).mp h _ hentry
      cases ha with
      | map _hreachable hkeys _hvalues =>
          exact ih (hkeys _ hentry) hparts.1
  | value hentry _hx ih =>
      have hparts := (equals_self_map_iff ha).mp h _ hentry
      cases ha with
      | map _hreachable _hkeys hvalues =>
          exact ih (hvalues _ hentry) hparts.2

theorem equals_self_of_within {a : Value} (ha : a.Built)
    (hall : forall x : Value, x.Within a -> x.equalsNothing = false) :
    a.Equals a := by
  induction ha with
  | integer n =>
      exact (Alike.integer n).equals
  | float x =>
      exact (Alike.float (Binary64.equal_self_iff.mpr (hall _ Within.self))).equals
  | string s =>
      exact (Alike.string s).equals
  | boolean b =>
      exact (Alike.boolean b).equals
  | list hcounted _helements ih =>
      rw [equals_self_list_iff hcounted]
      intro v hv
      exact ih v hv fun x hx => hall x (Within.element hv hx)
  | map hreachable hkeys hvalues ihkeys ihvalues =>
      rw [equals_self_map_iff (Built.map hreachable hkeys hvalues)]
      intro entry hentry
      exact ⟨ihkeys entry hentry fun x hx => hall x (Within.key hentry hx),
        ihvalues entry hentry fun x hx => hall x (Within.value hentry hx)⟩
  | function handle =>
      cases hall _ Within.self
  | channel handle =>
      cases hall _ Within.self
  | foreign handle =>
      have hcomparable := hall _ Within.self
      rw [Value.equalsNothing, Bool.not_eq_false'] at hcomparable
      exact (Alike.foreign hcomparable).equals

theorem equals_self_iff {a : Value} (ha : a.Built) :
    a.Equals a ↔ forall x : Value, x.Within a -> x.equalsNothing = false := by
  constructor
  · intro h x hx
    exact (h.within ha hx).equalsNothing
  · exact equals_self_of_within ha

/-! ## Refusals counted as differences -/

theorem same_answers (a b : Value) :
    exists answer, (a.same b).eval = .ok answer ∧ (answer = true ↔ a.Equals b) := by
  unfold same Equals
  rw [Action.eval_recover]
  cases (a.agree b).eval with
  | error error =>
      exact ⟨false, rfl, by simp⟩
  | ok answer =>
      exact ⟨answer, rfl, by simp⟩

theorem same_eq_true_iff {a b : Value} :
    (a.same b).eval = .ok true ↔ a.Equals b := by
  rcases same_answers a b with ⟨answer, hanswer, hiff⟩
  rw [hanswer, Except.ok.injEq, hiff]

theorem same_comm {a b : Value} (ha : a.Built) (hb : b.Built) :
    (a.same b).eval = (b.same a).eval := by
  rcases same_answers a b with ⟨forth, hforth, hforthIff⟩
  rcases same_answers b a with ⟨back, hback, hbackIff⟩
  have heq : forth = back := by
    rw [Bool.eq_iff_iff, hforthIff, hbackIff]
    exact ⟨partialEquivalence_built.symm a b ha hb, partialEquivalence_built.symm b a hb ha⟩
  rw [hforth, hback, heq]

/-! ## The laws together -/

/--
Equality is symmetric and transitive, a value equals itself unless something in it equals nothing,
and the comparison that counts refusals as differences is symmetric and transitive too. Neither
comparison depends on what cells keep that are faithful to the lists in the two values.
-/
theorem agree_partial_equivalence {a b c : Value} (ha : a.Built) (hb : b.Built) (hc : c.Built) :
    ((a.agree b).eval = .ok true -> (b.agree a).eval = .ok true) ∧
      ((a.agree b).eval = .ok true -> (b.agree c).eval = .ok true ->
        (a.agree c).eval = .ok true) ∧
      ((a.agree a).eval = .ok true ↔ forall x : Value, x.Within a -> x.equalsNothing = false) ∧
      (a.same b).eval = (b.same a).eval ∧
      ((a.same b).eval = .ok true -> (b.same c).eval = .ok true ->
        (a.same c).eval = .ok true) ∧
      forall Known, ListsKnown Known a -> ListsKnown Known b ->
        (a.agree b).Plain Known ∧ (a.same b).Plain Known := by
  have htrans := partialEquivalence_built.trans a b c ha hb hc
  refine ⟨partialEquivalence_built.symm a b ha hb, htrans, equals_self_iff ha, same_comm ha hb,
    ?_, ?_⟩
  · intro hab hbc
    rw [same_eq_true_iff] at hab hbc ⊢
    exact htrans hab hbc
  · intro Known haKnown hbKnown
    exact ⟨plain_agree haKnown hbKnown, plain_same haKnown hbKnown⟩

def singleton (n : Int64) (x : Binary64) : ValueMap :=
  (Dictionary.withPolicy .standard).added (Fnv.hash (0 :: Bytes.ofInt64 n)).toInt64
    (integer n) (float x)

theorem built_singleton (n : Int64) (x : Binary64) :
    (map (singleton n x)).Built :=
  built_put (built_withPolicy .standard) (Built.integer n) (Built.float x) rfl

theorem listsKnown_singleton (Known : Sequence Value -> Prop) (n : Int64) (x : Binary64) :
    ListsKnown Known (map (singleton n x)) := by
  have hentries : (singleton n x).toList = [(integer n, float x)] := by
    rfl
  apply listsKnown_map
  · rw [hentries, List.forall_mem_singleton]
    exact listsKnown_integer n
  · rw [hentries, List.forall_mem_singleton]
    exact listsKnown_float x

theorem agree_partial_equivalence_signed_zeros :
    (map (singleton 1 ⟨0⟩)).Built ∧ (map (singleton 1 ⟨0x8000000000000000⟩)).Built ∧
      ((map (singleton 1 ⟨0⟩)).agree (map (singleton 1 ⟨0x8000000000000000⟩))).eval = .ok true ∧
      ((map (singleton 1 ⟨0x8000000000000000⟩)).agree (map (singleton 1 ⟨0⟩))).eval = .ok true ∧
      (forall x : Value, x.Within (map (singleton 1 ⟨0⟩)) -> x.equalsNothing = false) ∧
      (Cells.run ((map (singleton 1 ⟨0⟩)).agree (map (singleton 1 ⟨0x8000000000000000⟩)))
        Cells.empty).1 = .ok true := by
  have hplus := built_singleton 1 ⟨0⟩
  have hminus := built_singleton 1 ⟨0x8000000000000000⟩
  have hagree : ((map (singleton 1 ⟨0⟩)).agree
      (map (singleton 1 ⟨0x8000000000000000⟩))).eval = .ok true := by
    rfl
  have hcells : (Cells.empty : Cells Value).Faithful fun _ => False :=
    Cells.faithful_empty fun _ _ hs => hs.elim
  rcases agree_partial_equivalence hplus hminus hplus with
    ⟨hsymm, htrans, hself, _hsame, _hsameTrans, hplain⟩
  refine ⟨hplus, hminus, hagree, hsymm hagree, hself.mp (htrans hagree (hsymm hagree)), ?_⟩
  have hruns := hplain (fun _ => False) (listsKnown_singleton _ 1 ⟨0⟩)
    (listsKnown_singleton _ 1 ⟨0x8000000000000000⟩)
  rw [(hruns.1 _ hcells).1]
  exact hagree

end Value

end ValueStore
