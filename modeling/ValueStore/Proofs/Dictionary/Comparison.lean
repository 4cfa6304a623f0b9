import ValueStore.Proofs.Dictionary.Invariant
import ValueStore.Proofs.Dictionary.Simulation
import ValueStore.Proofs.Dictionary.Verdict

/-!
# What comparing two dictionaries answers

Under a lawful keying the answer is yes exactly if the two dictionaries have equally many
live entries and each covers the other. If comparing values never fails there is an
answer in every other case too, and it is no. So the live entries alone decide, however
the dictionaries came by them.

Where values are compared alike in both directions, one of the two dictionaries covers the
other one only if it is covered in turn, since they have equally many entries. So it comes to
the same in which order they are compared.
-/

namespace ValueStore

variable {α κ ν : Type}

namespace Dictionary

def Comparable (keying : Keying α κ) (f : ν -> ν -> Action α Bool)
    (left right : Dictionary κ ν) : Prop :=
  forall d, d ∈ left.toList -> forall e, e ∈ right.toList -> keying.Same e.1 d.1 ->
    exists answer, (f d.2 e.2).eval = .ok answer

theorem Sound.holdsAll_answers {keying : Keying α κ} {left right : Dictionary κ ν}
    (hleft : left.Sound keying) (hright : right.Sound keying) {Known : κ -> Prop}
    (hlawful : keying.Lawful Known) (hleftKnown : left.KeysKnown Known)
    (hrightKnown : right.KeysKnown Known) {f : ν -> ν -> Action α Bool}
    (hcomparable : Comparable keying f left right) :
    exists answer, (right.holdsAll keying f left.toList).eval = .ok answer := by
  apply Action.allM_answers
  intro d hd
  have hverdict := (hleft.holds_iff hright hlawful hleftKnown hrightKnown f hd).mp rfl
  change exists answer, (right.holds keying f d).eval = .ok answer
  generalize (right.holds keying f d).eval = outcome at hverdict ⊢
  cases hverdict with
  | absent _hdiffer =>
      exact ⟨false, rfl⟩
  | present he hsame hvalue =>
      rw [← hvalue]
      exact hcomparable d hd _ he hsame

theorem Sound.agree_answers {keying : Keying α κ} {left right : Dictionary κ ν}
    (hleft : left.Sound keying) (hright : right.Sound keying) {Known : κ -> Prop}
    (hlawful : keying.Lawful Known) (hleftKnown : left.KeysKnown Known)
    (hrightKnown : right.KeysKnown Known) {f : ν -> ν -> Action α Bool}
    (hforth : Comparable keying f left right) (hback : Comparable keying f right left) :
    exists answer, (left.agree keying f right).eval = .ok answer := by
  unfold agree
  by_cases hsize : left.size = right.size
  · rw [if_pos hsize]
    rcases hleft.holdsAll_answers hright hlawful hleftKnown hrightKnown hforth with
      ⟨answer, hanswer⟩
    rw [Action.eval_bind_of_ok hanswer]
    cases answer with
    | true =>
        exact hright.holdsAll_answers hleft hlawful hrightKnown hleftKnown hback
    | false =>
        exact ⟨false, rfl⟩
  · rw [if_neg hsize]
    exact ⟨false, rfl⟩

theorem eval_eq_false_of_answers {x : Action α Bool}
    (hanswers : exists answer, x.eval = .ok answer) (hnot : ¬x.eval = .ok true) :
    x.eval = .ok false := by
  rcases hanswers with ⟨answer, hanswer⟩
  cases answer with
  | true =>
      exact (hnot hanswer).elim
  | false =>
      exact hanswer

/-! ## Live entries decide -/

theorem covers_congr {keying : Keying α κ} {f : ν -> ν -> Action α Bool}
    {left left' right right' : Dictionary κ ν} (hleft : left.toList.Perm left'.toList)
    (hright : right.toList.Perm right'.toList) :
    Covers keying f left right ↔ Covers keying f left' right' := by
  unfold Covers
  simp only [hleft.mem_iff, hright.mem_iff]

theorem Sound.size_eq_of_perm {keying : Keying α κ} {m m' : Dictionary κ ν}
    (h : m.Sound keying) (h' : m'.Sound keying) (hperm : m.toList.Perm m'.toList) :
    m.size = m'.size := by
  rw [h.counted, h'.counted, hperm.length_eq]

/--
Under a lawful keying two dictionaries that can be reached agree exactly if they have equally many
live entries and each covers the other. Where values under the same key can be compared the answer
is no in every other case. Dictionaries with the same live entries are told apart by nothing, and
agree with each other if these entries, key and value, equal themselves. Nor does the answer depend
on what cells keep if hashing and comparing the keys and values involved does not.
-/
theorem Reachable.agree_characterized {keying : Keying α κ}
    (hlawful : keying.Lawful keying.Hashable) {a b : Dictionary κ ν} (ha : a.Reachable keying)
    (hb : b.Reachable keying) (f : ν -> ν -> Action α Bool) :
    ((a.agree keying f b).eval = .ok true ↔
        a.size = b.size ∧
          (forall d, d ∈ a.toList ->
            exists e, e ∈ b.toList ∧ keying.Same e.1 d.1 ∧ (f d.2 e.2).eval = .ok true) ∧
          (forall e, e ∈ b.toList ->
            exists d, d ∈ a.toList ∧ keying.Same d.1 e.1 ∧ (f e.2 d.2).eval = .ok true)) ∧
      (Comparable keying f a b -> Comparable keying f b a ->
        (a.agree keying f b).eval ≠ .ok true -> (a.agree keying f b).eval = .ok false) ∧
      (forall a' b' : Dictionary κ ν, a'.Reachable keying -> b'.Reachable keying ->
        a.toList.Perm a'.toList -> b.toList.Perm b'.toList ->
          ((a.agree keying f b).eval = .ok true ↔ (a'.agree keying f b').eval = .ok true)) ∧
      (a.toList.Perm b.toList ->
        (forall d, d ∈ a.toList -> keying.Same d.1 d.1 ∧ (f d.2 d.2).eval = .ok true) ->
          (a.agree keying f b).eval = .ok true) ∧
      forall Known, keying.Plain Known (fun key => key ∈ a.keys ++ b.keys) ->
        (forall d, d ∈ a.toList -> forall e, e ∈ b.toList ->
          (f d.2 e.2).Plain Known ∧ (f e.2 d.2).Plain Known) ->
          (a.agree keying f b).Plain Known := by
  have hequal : forall {a b : Dictionary κ ν}, a.Reachable keying -> b.Reachable keying ->
      ((a.agree keying f b).eval = .ok true ↔
        a.size = b.size ∧ Covers keying f a b ∧ Covers keying f b a) :=
    fun ha hb => ha.sound.agree_eq_true_iff hb.sound hlawful ha.sound.keysHashable
      hb.sound.keysHashable f
  refine ⟨hequal ha hb, ?_, ?_, ?_, ?_⟩
  · intro hforth hback hnot
    exact eval_eq_false_of_answers (ha.sound.agree_answers hb.sound hlawful
      ha.sound.keysHashable hb.sound.keysHashable hforth hback) hnot
  · intro a' b' ha' hb' haPerm hbPerm
    rw [hequal ha hb, hequal ha' hb', ha.sound.size_eq_of_perm ha'.sound haPerm,
      hb.sound.size_eq_of_perm hb'.sound hbPerm, covers_congr haPerm hbPerm,
      covers_congr hbPerm haPerm]
  · intro hperm hself
    rw [hequal ha hb]
    refine ⟨ha.sound.size_eq_of_perm hb.sound hperm, ?_, ?_⟩
    · intro d hd
      exact ⟨d, hperm.mem_iff.mp hd, hself d hd⟩
    · intro d hd
      have hd := hperm.mem_iff.mpr hd
      exact ⟨d, hd, hself d hd⟩
  · intro Known hplain hvalues
    have haKeys : a.KeysKnown fun key => key ∈ a.keys ++ b.keys :=
      fun entry hentry => List.mem_append_left _ (List.mem_map_of_mem hentry)
    have hbKeys : b.KeysKnown fun key => key ∈ a.keys ++ b.keys :=
      fun entry hentry => List.mem_append_right _ (List.mem_map_of_mem hentry)
    exact plain_agree hplain haKeys hbKeys (fun d hd e he => (hvalues d hd e he).1)
      (fun e he d hd => (hvalues d hd e he).2)

def oneThree : Dictionary Nat Nat :=
  ((withPolicy .standard).added 1 1 10).added 1 3 30

theorem reachable_oneThree :
    oneThree.Reachable Keying.parity := by
  have hone : ((withPolicy .standard : Dictionary Nat Nat).put Keying.parity 1 10).eval =
      .ok ((withPolicy .standard).added 1 1 10) := by
    rfl
  have hthree : (((withPolicy .standard : Dictionary Nat Nat).added 1 1 10).put
      Keying.parity 3 30).eval = .ok oneThree := by
    rfl
  exact ((Reachable.withPolicy .standard).put hone).put hthree

/-- The same entries the other way round and beside a tombstone, under another policy. -/
theorem agree_characterized_tombstone :
    exists b : Dictionary Nat Nat, Keying.parity.Lawful Keying.parity.Hashable ∧
      oneThree.Reachable Keying.parity ∧ b.Reachable Keying.parity ∧
        b.tombstones = 1 ∧ b.toList = [(3, 30), (1, 10)] ∧
          (oneThree.agree Keying.parity (fun x y => return x == y) b).eval = .ok true := by
  have hrun : exists replies b, ((withPolicy ⟨5, 2⟩ : Dictionary Nat Nat).serveAll
      Keying.parity [.put 4 40, .put 3 30, .put 7 70, .erase 4, .put 1 10, .erase 7]).eval =
        .ok (replies, b) ∧ b.tombstones = 1 ∧ b.toList = [(3, 30), (1, 10)] :=
    ⟨_, _, rfl, rfl, rfl⟩
  rcases hrun with ⟨replies, b, hrun, htombstones, hentries⟩
  have hb := (Reachable.withPolicy ⟨5, 2⟩).serveAll hrun
  rcases reachable_oneThree.agree_characterized Keying.lawful_parity hb
    (fun x y => return x == y) with ⟨_hiff, _hfalse, _hsame, hself, _hplain⟩
  have honeThree : oneThree.toList = [(1, 10), (3, 30)] := by
    rfl
  refine ⟨b, Keying.lawful_parity, reachable_oneThree, hb, htombstones, hentries, hself ?_ ?_⟩
  · rw [honeThree, hentries]
    exact List.Perm.swap _ _ _
  · rw [honeThree]
    simp [Keying.same_parity]

/-! ## Both directions -/

theorem keysKnown_append (a b : Dictionary κ ν) :
    (a.KeysKnown fun key => key ∈ a.keys ++ b.keys) ∧
      b.KeysKnown fun key => key ∈ a.keys ++ b.keys := by
  constructor
  · intro entry hentry
    exact List.mem_append_left _ (List.mem_map_of_mem hentry)
  · intro entry hentry
    exact List.mem_append_right _ (List.mem_map_of_mem hentry)

/--
Two dictionaries of equal size that can be reached hold all of each other if one holds all of the
other one, under a lawful keying and with values that are compared alike in both directions. Then
asking in the second direction never answers no and is never refused, so it could be left out. Nor
does either answer depend on what cells keep if hashing and comparing what is involved does not.
-/
theorem Reachable.holdsAll_both_ways {keying : Keying α κ}
    (hlawful : keying.Lawful keying.Hashable) {a b : Dictionary κ ν} (ha : a.Reachable keying)
    (hb : b.Reachable keying) {f : ν -> ν -> Action α Bool}
    (hsymm : forall x y, (f x y).eval = .ok true -> (f y x).eval = .ok true) :
    (a.size = b.size ->
        ((b.holdsAll keying f a.toList).eval = .ok true ↔
          (a.holdsAll keying f b.toList).eval = .ok true) ∧
        (a.agree keying f b).eval = (b.holdsAll keying f a.toList).eval) ∧
      ((a.agree keying f b).eval = .ok true ↔ (b.agree keying f a).eval = .ok true) ∧
      forall Known, keying.Plain Known (fun key => key ∈ a.keys ++ b.keys) ->
        (forall d, d ∈ a.toList -> forall e, e ∈ b.toList ->
          (f d.2 e.2).Plain Known ∧ (f e.2 d.2).Plain Known) ->
          (b.holdsAll keying f a.toList).Plain Known ∧
            (a.holdsAll keying f b.toList).Plain Known := by
  have haKnown := ha.sound.keysHashable
  have hbKnown := hb.sound.keysHashable
  refine ⟨?_, ?_, ?_⟩
  · intro hsize
    refine ⟨⟨?_, ?_⟩, ?_⟩
    · exact ha.sound.holdsAll_back hb.sound hlawful haKnown hbKnown
        (fun d _hd e _he => hsymm d.2 e.2) hsize
    · exact hb.sound.holdsAll_back ha.sound hlawful hbKnown haKnown
        (fun d _hd e _he => hsymm d.2 e.2) hsize.symm
    · exact ha.sound.agree_eval hb.sound hlawful haKnown hbKnown
        (fun d _hd e _he => hsymm d.2 e.2) hsize
  · constructor
    · exact ha.sound.agree_symm hb.sound hlawful haKnown hbKnown
    · exact hb.sound.agree_symm ha.sound hlawful hbKnown haKnown
  · intro Known hplain hvalues
    rcases keysKnown_append a b with ⟨haKeys, hbKeys⟩
    constructor
    · exact plain_holdsAll hplain haKeys hbKeys fun d hd e he => (hvalues d hd e he).1
    · exact plain_holdsAll hplain hbKeys haKeys fun e he d hd => (hvalues d hd e he).2

/-- A dictionary with a tombstone holds the two entries, so they are all that is alive in it. -/
theorem holdsAll_both_ways_tombstone :
    exists b : Dictionary Nat Nat, Keying.parity.Lawful Keying.parity.Hashable ∧
      oneThree.Reachable Keying.parity ∧ b.Reachable Keying.parity ∧ oneThree.size = b.size ∧
        b.tombstones = 1 ∧ b.toList = [(3, 30), (1, 10)] ∧
          (b.holdsAll Keying.parity (fun x y => return x == y) oneThree.toList).eval = .ok true ∧
          (oneThree.holdsAll Keying.parity (fun x y => return x == y) b.toList).eval = .ok true := by
  have hrun : exists replies b, ((withPolicy .standard : Dictionary Nat Nat).serveAll
      Keying.parity [.put 3 30, .put 4 40, .erase 4, .put 1 10]).eval = .ok (replies, b) ∧
        oneThree.size = b.size ∧ b.tombstones = 1 ∧ b.toList = [(3, 30), (1, 10)] ∧
          (b.holdsAll Keying.parity (fun x y => return x == y) oneThree.toList).eval = .ok true :=
    ⟨_, _, rfl, rfl, rfl, rfl, rfl⟩
  rcases hrun with ⟨replies, b, hrun, hsize, htombstones, hentries, hholds⟩
  have hb := (Reachable.withPolicy .standard).serveAll hrun
  have hsymm : forall x y : Nat, (pure (x == y) : Action Unit Bool).eval = .ok true ->
      (pure (y == x) : Action Unit Bool).eval = .ok true := by
    intro x y hxy
    rwa [Bool.beq_comm]
  have hboth := reachable_oneThree.holdsAll_both_ways (f := fun x y => return x == y)
    Keying.lawful_parity hb hsymm
  rcases hboth.1 hsize with ⟨hback, _hagree⟩
  exact ⟨b, Keying.lawful_parity, reachable_oneThree, hb, hsize, htombstones, hentries, hholds,
    hback.mp hholds⟩

/-- One direction is not enough where values are not compared alike in both. -/
example :
    let oneThree' := ((withPolicy .standard : Dictionary Nat Nat).added 1 1 10).added 1 3 20
    let below : Nat -> Nat -> Action Unit Bool := fun x y => return decide (x ≤ y)
    (oneThree.holdsAll Keying.parity below oneThree'.toList).eval = .ok true ∧
      (oneThree'.holdsAll Keying.parity below oneThree.toList).eval = .ok false := by
  decide

end Dictionary

end ValueStore
