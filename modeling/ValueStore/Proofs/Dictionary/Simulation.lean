import ValueStore.Proofs.Dictionary.Plain

/-!
# Dictionaries as plain collections

Under a lawful keying a dictionary answers every run of requests as a ledger does,
and holds the same entries at its end.
-/

namespace ValueStore

variable {α κ ν : Type}

/-! ## Searching a ledger -/

namespace Ledger

theorem isFor_iff {keying : Keying α κ} {key : κ} {entry : κ × ν} :
    isFor keying key entry = true ↔ keying.Same entry.1 key := by
  unfold isFor Keying.Same
  cases (keying.same entry.1 key).eval with
  | error error =>
      simp
  | ok answer =>
      simp

theorem isFor_eq_false {keying : Keying α κ} {key : κ} {entry : κ × ν}
    (hdiffer : keying.Differ entry.1 key) :
    isFor keying key entry = false := by
  unfold isFor
  rw [show (keying.same entry.1 key).eval = .ok false from hdiffer]

theorem entry?_eq_none {keying : Keying α κ} {ledger : Ledger κ ν} {key : κ}
    (hdiffer : forall entry, entry ∈ ledger -> keying.Differ entry.1 key) :
    ledger.entry? keying key = none := by
  unfold entry?
  rw [List.find?_eq_none]
  intro entry hentry
  rw [isFor_eq_false (hdiffer entry hentry)]
  exact Bool.false_ne_true

theorem without_eq_self {keying : Keying α κ} {ledger : Ledger κ ν} {key : κ}
    (hdiffer : forall entry, entry ∈ ledger -> keying.Differ entry.1 key) :
    ledger.without keying key = ledger := by
  unfold without
  apply List.eraseP_of_forall_not
  intro entry hentry
  rw [isFor_eq_false (hdiffer entry hentry)]
  exact Bool.false_ne_true

end Ledger

/-! ## One request -/

namespace Dictionary

inductive Agrees {ρ σ : Type} (Related : ρ -> σ -> Prop) :
    Except Error ρ -> Except Error σ -> Prop where
  | ok {answer : ρ} {expected : σ} :
      Related answer expected -> Agrees Related (.ok answer) (.ok expected)
  | error {error : Error} : Agrees Related (.error error) (.error error)

theorem Agrees.bind {ρ σ ρ' σ' : Type} {Related : ρ -> σ -> Prop} {Related' : ρ' -> σ' -> Prop}
    {x : Action α ρ} {y : Except Error σ} {f : ρ -> Action α ρ'} {g : σ -> Except Error σ'}
    (hxy : Agrees Related x.eval y)
    (hfg : forall answer expected, Related answer expected ->
      Agrees Related' (f answer).eval (g expected)) :
    Agrees Related' (x >>= f).eval (y >>= g) := by
  rw [Action.eval_bind]
  generalize x.eval = answered at hxy
  cases hxy with
  | ok hrelated =>
      exact hfg _ _ hrelated
  | error =>
      exact Agrees.error

theorem Agrees.bind_of_eq {ρ ρ' σ' : Type} {Related : ρ' -> σ' -> Prop} {x : Action α ρ}
    {y : Except Error ρ} {f : ρ -> Action α ρ'} {g : ρ -> Except Error σ'} (hxy : x.eval = y)
    (hfg : forall answer, Agrees Related (f answer).eval (g answer)) :
    Agrees Related (x >>= f).eval (y >>= g) := by
  rw [Action.eval_bind, hxy]
  cases y with
  | error error =>
      exact Agrees.error
  | ok answer =>
      exact hfg answer

structure Holds (keying : Keying α κ) (m : Dictionary κ ν) (ledger : Ledger κ ν) : Prop where
  sound : m.Sound keying
  perm : m.toList.Perm ledger

inductive Meets (keying : Keying α κ) (m : Dictionary κ ν) (ledger : Ledger κ ν) (hash : Int64)
    (key : κ) : Except Error (Option Nat) -> Prop where
  | absent :
      ledger.entry? keying key = none -> ledger.without keying key = ledger ->
      Meets keying m ledger hash key (.ok none)
  | present {i : Nat} {entry : κ × ν} :
      (m.candidates hash)[i]? = some entry -> ledger.entry? keying key = some entry ->
      (forall rest, m.toList.Perm (entry :: rest) -> rest.Perm (ledger.without keying key)) ->
      Meets keying m ledger hash key (.ok (some i))

theorem Holds.meets {keying : Keying α κ} (hlawful : keying.Lawful keying.Hashable)
    {m : Dictionary κ ν} {ledger : Ledger κ ν} (h : m.Holds keying ledger)
    {hash : Int64} {key : κ} (hkey : keying.Hashable key) (hplaced : keying.PlacedAt hash key)
    {result : Except Error (Option Nat)}
    (hfinds : keying.Finds key (m.candidates hash) result) :
    m.Meets keying ledger hash key result := by
  have hknown := h.sound.keysHashable
  cases h.sound.located hlawful hknown hkey hplaced hfinds with
  | absent hdiffer =>
      have hledger : forall entry, entry ∈ ledger -> keying.Differ entry.1 key :=
        fun entry hentry => hdiffer entry (h.perm.mem_iff.mpr hentry)
      exact Meets.absent (Ledger.entry?_eq_none hledger) (Ledger.without_eq_self hledger)
  | @present i entry hentry hmem hsame =>
      have hunlike := h.sound.unlike hlawful hknown
      apply Meets.present hentry
      · have hsome : (ledger.entry? keying key).isSome := by
          rw [Ledger.entry?, List.find?_isSome]
          exact ⟨entry, h.perm.mem_iff.mp hmem, Ledger.isFor_iff.mpr hsame⟩
        rcases Option.isSome_iff_exists.mp hsome with ⟨other, hother⟩
        have hotherMem := h.perm.mem_iff.mpr (List.mem_of_find?_eq_some hother)
        have hotherSame := Ledger.isFor_iff.mp (List.find?_some hother)
        rw [hother, hlawful.eq_of_same hunlike hknown hkey hotherMem hmem hotherSame hsame]
      · intro rest hrest
        have hcrossed : Ledger.without keying (entry :: rest) key = rest :=
          List.eraseP_cons_of_pos (Ledger.isFor_iff.mpr hsame)
        rw [hrest.pairwise_iff Keying.Unlike.symm] at hunlike
        rw [← hcrossed]
        refine List.Perm.eraseP _ ?_ (hrest.symm.trans h.perm)
        apply hunlike.imp_of_mem
        intro d e hd he hapart hdFor heFor
        have hdMem := hrest.mem_iff.mpr hd
        have heMem := hrest.mem_iff.mpr he
        exact hapart.not_both_same hlawful (hknown d hdMem) (hknown e heMem) hkey
          (Ledger.isFor_iff.mp hdFor) (Ledger.isFor_iff.mp heFor)

/-! ## Each request -/

theorem Holds.put {keying : Keying α κ} (hlawful : keying.Lawful keying.Hashable)
    {m : Dictionary κ ν} {ledger : Ledger κ ν} (h : m.Holds keying ledger) (key : κ)
    (value : ν) :
    Agrees (Holds keying) (m.put keying key value).eval (ledger.put keying key value) := by
  unfold Ledger.put
  cases hhash : (keying.hash key).eval with
  | error error =>
      rw [put_eval_of_unhashable hhash]
      exact Agrees.error
  | ok word =>
      have hplaced := Keying.placedAt_of_hash hhash
      rcases put_eval hplaced m value with ⟨result, hfinds, hput⟩
      rw [hput]
      cases h.meets hlawful ⟨word, hhash⟩ hplaced hfinds with
      | absent hentry _hwithout =>
          rw [hentry]
          refine Agrees.ok ⟨h.sound.added hplaced hfinds.misses value, ?_⟩
          exact (toList_added key value).trans (h.perm.cons _)
      | present _hcandidate hentry _hwithout =>
          rw [hentry]
          exact Agrees.error

theorem Holds.erase {keying : Keying α κ} (hlawful : keying.Lawful keying.Hashable)
    {m : Dictionary κ ν} {ledger : Ledger κ ν} (h : m.Holds keying ledger) (key : κ) :
    Agrees (fun removed crossed => removed.1 = crossed.1 ∧ removed.2.Holds keying crossed.2)
      (m.erase keying key).eval (ledger.erase keying key) := by
  rw [erase_eval]
  unfold Ledger.erase
  cases hhash : (keying.hash key).eval with
  | error error =>
      rw [remove_eval_of_unhashable hhash]
      exact Agrees.error
  | ok word =>
      have hplaced := Keying.placedAt_of_hash hhash
      rcases remove_eval hplaced m with ⟨result, hfinds, hremove⟩
      rw [hremove]
      cases h.meets hlawful ⟨word, hhash⟩ hplaced hfinds with
      | absent hentry hwithout =>
          rw [hentry, hwithout]
          exact Agrees.ok ⟨rfl, h⟩
      | @present i entry hcandidate hentry hwithout =>
          rcases List.getElem?_eq_some_iff.mp hcandidate with ⟨hi, _heq⟩
          rcases exists_takenAt hi with ⟨after, htaken⟩
          have hsound := h.sound.takenAt htaken hi
          have hperm := (toList_settle hsound.index).trans
            (hwithout after.toList (htaken.toList hcandidate))
          rw [hentry]
          have hremoval := removal_of_takenAt htaken
          simp only [Except.map, Option.map_some, hremoval]
          exact Agrees.ok ⟨rfl, hsound.settle, hperm⟩

theorem Holds.lookup? {keying : Keying α κ} (hlawful : keying.Lawful keying.Hashable)
    {m : Dictionary κ ν} {ledger : Ledger κ ν} (h : m.Holds keying ledger) (key : κ) :
    (m.lookup? keying key).eval = ledger.lookup? keying key := by
  unfold Ledger.lookup?
  cases hhash : (keying.hash key).eval with
  | error error =>
      exact lookup?_eval_of_unhashable hhash m
  | ok word =>
      have hplaced := Keying.placedAt_of_hash hhash
      rcases lookup?_eval hplaced m with ⟨result, hfinds, hlookup⟩
      rw [hlookup]
      cases h.meets hlawful ⟨word, hhash⟩ hplaced hfinds with
      | absent hentry _hwithout =>
          rw [hentry]
          rfl
      | present hcandidate hentry _hwithout =>
          rw [hentry]
          simp only [Except.map, Option.bind_some, hcandidate]
          rfl

theorem Holds.answer {keying : Keying α κ} (hlawful : keying.Lawful keying.Hashable)
    {m : Dictionary κ ν} {ledger : Ledger κ ν} (h : m.Holds keying ledger)
    (request : Request κ ν) :
    Agrees (fun served expected => served.1 = expected.1 ∧ served.2.Holds keying expected.2)
      (m.answer keying request).eval (ledger.answer keying request) := by
  cases request with
  | put key value =>
      apply Agrees.bind (h.put hlawful key value)
      intro larger ledger hholds
      exact Agrees.ok ⟨rfl, hholds⟩
  | delete key =>
      simp only [Dictionary.answer, Dictionary.delete, bind_assoc]
      apply Agrees.bind (h.erase hlawful key)
      intro removed crossed hremoved
      rcases removed with ⟨found, smaller⟩
      rcases crossed with ⟨expected, crossed⟩
      rcases hremoved with ⟨hfound, hholds⟩
      cases hfound
      cases found with
      | true =>
          exact Agrees.ok ⟨rfl, hholds⟩
      | false =>
          exact Agrees.error
  | erase key =>
      apply Agrees.bind (h.erase hlawful key)
      intro removed crossed hremoved
      rcases removed with ⟨found, smaller⟩
      rcases crossed with ⟨expected, crossed⟩
      rcases hremoved with ⟨hfound, hholds⟩
      exact Agrees.ok ⟨congrArg Reply.flag hfound, hholds⟩
  | compact =>
      exact Agrees.ok ⟨rfl, h.sound.compact, (toList_compact h.sound.index).trans h.perm⟩
  | clone =>
      exact Agrees.ok ⟨rfl, h⟩
  | get key =>
      simp only [Dictionary.answer, Dictionary.get, bind_assoc]
      apply Agrees.bind_of_eq (h.lookup? hlawful key)
      intro value
      cases value with
      | none =>
          exact Agrees.error
      | some value =>
          exact Agrees.ok ⟨rfl, h⟩
  | getD key fallback =>
      simp only [Dictionary.answer, Dictionary.getD, bind_assoc]
      apply Agrees.bind_of_eq (h.lookup? hlawful key)
      intro value
      exact Agrees.ok ⟨rfl, h⟩
  | getWithFlag key =>
      apply Agrees.bind_of_eq (h.lookup? hlawful key)
      intro value
      exact Agrees.ok ⟨rfl, h⟩
  | contains key =>
      simp only [Dictionary.answer, Dictionary.contains, bind_assoc]
      apply Agrees.bind_of_eq (h.lookup? hlawful key)
      intro value
      exact Agrees.ok ⟨rfl, h⟩
  | size =>
      exact Agrees.ok ⟨congrArg Reply.count (h.sound.counted.trans h.perm.length_eq), h⟩
  | isEmpty =>
      have hsize : m.isEmpty = ledger.isEmpty := by
        unfold Dictionary.isEmpty
        rw [h.sound.counted, h.perm.length_eq]
        cases ledger <;> rfl
      exact Agrees.ok ⟨congrArg Reply.flag hsize, h⟩

/-! ## Runs of requests -/

theorem Holds.serve {keying : Keying α κ} (hlawful : keying.Lawful keying.Hashable)
    {m : Dictionary κ ν} {ledger : Ledger κ ν} (h : m.Holds keying ledger)
    (request : Request κ ν) :
    exists after, (m.serve keying request).eval = .ok ((ledger.serve keying request).1, after) ∧
      after.Holds keying (ledger.serve keying request).2 := by
  have hanswer := h.answer hlawful request
  unfold Dictionary.serve Ledger.serve
  rw [Action.eval_recover]
  generalize (m.answer keying request).eval = served at hanswer
  generalize ledger.answer keying request = expected at hanswer
  cases hanswer with
  | @ok served expected hrelated =>
      rcases served with ⟨reply, after⟩
      rcases hrelated with ⟨hreply, hholds⟩
      cases hreply
      exact ⟨after, rfl, hholds⟩
  | error =>
      exact ⟨m, rfl, h⟩

theorem Holds.serveAll {keying : Keying α κ} (hlawful : keying.Lawful keying.Hashable)
    {m : Dictionary κ ν} {ledger : Ledger κ ν} (h : m.Holds keying ledger)
    (requests : List (Request κ ν)) :
    exists after,
      (m.serveAll keying requests).eval = .ok ((ledger.serveAll keying requests).1, after) ∧
        after.Holds keying (ledger.serveAll keying requests).2 := by
  induction requests generalizing m ledger with
  | nil =>
      exact ⟨m, rfl, h⟩
  | cons request rest ih =>
      rcases h.serve hlawful request with ⟨next, hserve, hnext⟩
      rcases ih hnext with ⟨after, hserveAll, hafter⟩
      refine ⟨after, ?_, hafter⟩
      unfold Dictionary.serveAll Ledger.serveAll
      rw [Action.eval_bind_of_ok hserve]
      dsimp only
      rw [Action.eval_bind_of_ok hserveAll]
      rfl

theorem Holds.putAll {keying : Keying α κ} (hlawful : keying.Lawful keying.Hashable)
    {m : Dictionary κ ν} {ledger : Ledger κ ν} (h : m.Holds keying ledger)
    (entries : List (κ × ν)) :
    Agrees (Holds keying) (m.putAll keying entries).eval (ledger.putAll keying entries) := by
  induction entries generalizing m ledger with
  | nil =>
      exact Agrees.ok h
  | cons entry rest ih =>
      apply Agrees.bind (h.put hlawful entry.1 entry.2)
      intro larger ledger hholds
      exact ih hholds

theorem holds_withPolicy (keying : Keying α κ) (policy : Policy) :
    (withPolicy policy : Dictionary κ ν).Holds keying [] where
  sound := sound_withPolicy keying policy
  perm := List.Perm.refl []

theorem origin_agrees {keying : Keying α κ} (hlawful : keying.Lawful keying.Hashable)
    (origin : Origin κ ν) :
    Agrees (Holds keying) (origin.dictionary keying).eval (origin.ledger keying) := by
  cases origin with
  | withPolicy policy =>
      exact Agrees.ok (holds_withPolicy keying policy)
  | ofList entries =>
      exact (holds_withPolicy keying .standard).putAll hlawful entries

/--
From every origin, and for every run of requests, a dictionary answers as a ledger does and ends
with the same entries, no two of which have the same key. Nor does the run depend on what cells
keep if hashing and comparing its keys does not.
-/
theorem serveAll_like_ledger {keying : Keying α κ} (hlawful : keying.Lawful keying.Hashable)
    (origin : Origin κ ν) (requests : List (Request κ ν)) :
    Agrees
        (fun served expected => served.1 = expected.1 ∧ served.2.toList.Perm expected.2 ∧
          served.2.toList.Pairwise fun d e => keying.Unlike d.1 e.1)
        (origin.serveAll keying requests).eval (origin.expected keying requests) ∧
      forall Known,
        keying.Plain Known (fun key => key ∈ origin.keys ++ requests.filterMap Request.key?) ->
          (origin.serveAll keying requests).Plain Known := by
  constructor
  · apply Agrees.bind (origin_agrees hlawful origin)
    intro m ledger h
    rcases h.serveAll hlawful requests with ⟨after, hserveAll, hholds⟩
    rw [hserveAll]
    exact Agrees.ok ⟨rfl, hholds.perm, hholds.sound.unlike hlawful hholds.sound.keysHashable⟩
  · intro Known hplain
    exact Origin.plain_serveAll hplain

end Dictionary

def Keying.parity : Keying Unit Nat where
  hash key := if key = 9 then Action.fail (.unhashableKey "nine") else return UInt64.ofNat (key % 2)
  same stored sought := return stored == sought && stored != 5

theorem Keying.same_parity {a b : Nat} :
    Keying.parity.Same a b ↔ a = b ∧ a ≠ 5 := by
  simp [Keying.Same, Keying.parity]

theorem Keying.lawful_parity :
    Keying.parity.Lawful Keying.parity.Hashable where
  answers a b _ha _hb := by
    cases hanswer : a == b && a != 5 with
    | true =>
        exact Or.inl (congrArg Except.ok hanswer)
    | false =>
        exact Or.inr (congrArg Except.ok hanswer)
  symm a b _ha _hb hsame := by
    rcases same_parity.mp hsame with ⟨rfl, hne⟩
    exact same_parity.mpr ⟨rfl, hne⟩
  trans a b c _ha _hb _hc hab hbc := by
    rcases same_parity.mp hab with ⟨rfl, hne⟩
    exact hbc
  hash_eq a b _ha _hb hsame := by
    rcases same_parity.mp hsame with ⟨rfl, hne⟩
    rfl

theorem Keying.plain_parity (Known : Sequence Unit -> Prop) (KnownKey : Nat -> Prop) :
    Keying.parity.Plain Known KnownKey where
  hash := by
    intro key _hkey
    unfold parity
    dsimp only
    split
    · exact Action.plain_fail _
    · exact Action.plain_done _
  same := fun _ _ _ _ => Action.plain_done _

/-- Colliding keys, a key put twice, refusals, and a rebuild at every deletion. -/
theorem Dictionary.serveAll_like_ledger_parity :
    Keying.parity.Lawful Keying.parity.Hashable ∧
      (Cells.run ((Origin.withPolicy ⟨0, 0⟩ : Origin Nat Nat).serveAll Keying.parity
        [.put 1 10, .put 3 30, .put 5 50, .put 5 51, .put 3 0, .put 9 0, .put 2 20,
          .erase 1, .get 3, .contains 5, .erase 5, .delete 1, .erase 2, .getD 2 0,
          .getWithFlag 3, .size]) Cells.empty).1.map Prod.fst =
        .ok [.done, .done, .done, .done, .refused .duplicateKey,
          .refused (.unhashableKey "nine"), .done, .flag true, .value 30, .flag false,
          .flag false, .refused .keyNotFound, .flag true, .value 0,
          .flagged true (some 30), .count 3] := by
  refine ⟨Keying.lawful_parity, ?_⟩
  have hcells : (Cells.empty : Cells Unit).Faithful fun _ => False :=
    Cells.faithful_empty fun _ _ hs => hs.elim
  rcases serveAll_like_ledger Keying.lawful_parity (.withPolicy ⟨0, 0⟩ : Origin Nat Nat) _ with
    ⟨hagrees, hplain⟩
  rw [(hplain _ (Keying.plain_parity _ _) _ hcells).1]
  cases hagrees with
  | ok hrelated =>
      exact congrArg Except.ok (hrelated.1.trans rfl)

end ValueStore
