import ValueStore.Proofs.Dictionary.Locality
import ValueStore.Proofs.Dictionary.Schedule

/-!
# Deleting goes through

Deleting takes two walks. The bucket of a hash is searched for a key, and then the tree is gone
down once more to take out the entry at the place that was found. The walks agree, whatever the
keying answers and whatever the sequences answer that it reads: the place is that of a live
entry, so the bucket gives it up, the tree tells that it was edited, and the size that is counted
down is not zero. So it does not matter what would come of a place that cannot be taken out.
-/

namespace ValueStore

variable {α β ε κ ν : Type}

namespace Tree

theorem modify?_congr {handler handler' : Handler β ε} {key : Int64} {edit : ε} {t : Tree β}
    (hedit : forall v, t.get? key = some v -> handler.edit v edit = handler'.edit v edit) :
    t.modify? handler key edit = t.modify? handler' key edit := by
  induction t with
  | leaf =>
      rfl
  | node color l k v r ihl ihr =>
      unfold get? at hedit
      unfold modify?
      by_cases hleft : key < k
      · rw [if_pos hleft] at hedit ⊢
        rw [if_pos hleft, ihl hedit]
      · rw [if_neg hleft] at hedit ⊢
        rw [if_neg hleft]
        by_cases hright : k < key
        · rw [if_pos hright] at hedit ⊢
          rw [if_pos hright, ihr hedit]
        · rw [if_neg hright] at hedit ⊢
          rw [if_neg hright, hedit v rfl]

end Tree

namespace Bucket

def Has (b : Bucket κ ν) (place : Place) : Prop :=
  b.deleted = false ∧ forall i, place = .overflow i -> i < b.overflow.length

theorem Has.lt_length {b : Bucket κ ν} {i : Nat} (h : b.Has (Place.ofNat i)) :
    i < b.entries.length := by
  rw [entries_of_live h.1, List.length_cons]
  cases i with
  | zero =>
      exact Nat.succ_pos _
  | succ i =>
      exact Nat.succ_lt_succ (h.2 i rfl)

theorem Has.exists_remove? {b : Bucket κ ν} {place : Place} (h : b.Has place) :
    exists left, b.remove? place = some left := by
  rcases place.exists_eq_ofNat with ⟨i, rfl⟩
  rcases remove?_ofNat h.lt_length with ⟨left, hremove, _hremoved⟩
  exact ⟨left, hremove⟩

theorem always_findOverflow (keying : Keying α κ) (sought : κ) (index : Nat)
    (entries : List (κ × ν)) :
    (findOverflow keying sought index entries).Always fun _ outcome =>
      forall place, outcome = .ok (some place) ->
        exists i, place = .overflow i ∧ i < index + entries.length := by
  induction entries generalizing index with
  | nil =>
      intro place hplace
      cases hplace
  | cons entry rest ih =>
      unfold findOverflow
      apply Action.always_bind (keying.same entry.1 sought)
      · intro answer
        cases answer with
        | true =>
            intro place hplace
            cases hplace
            exact ⟨index, rfl, Nat.lt_add_of_pos_right (Nat.succ_pos _)⟩
        | false =>
            apply (ih (index + 1)).mono
            intro _events outcome hfound place hplace
            rcases hfound place hplace with ⟨i, rfl, hi⟩
            rw [List.length_cons]
            exact ⟨i, rfl, by omega⟩
      · intro error place hplace
        cases hplace

theorem always_find? (keying : Keying α κ) (b : Bucket κ ν) (sought : κ) :
    (b.find? keying sought).Always fun _ outcome =>
      forall place, outcome = .ok (some place) -> b.Has place := by
  unfold find?
  cases hdeleted : b.deleted with
  | true =>
      intro place hplace
      cases hplace
  | false =>
      apply Action.always_bind (keying.same b.key sought)
      · intro answer
        cases answer with
        | true =>
            intro place hplace
            cases hplace
            exact ⟨hdeleted, nofun⟩
        | false =>
            apply (always_findOverflow keying sought 0 b.overflow).mono
            intro _events outcome hfound place hplace
            rcases hfound place hplace with ⟨i, rfl, hi⟩
            refine ⟨hdeleted, ?_⟩
            intro j hj
            cases hj
            rwa [Nat.zero_add] at hi
      · intro error place hplace
        cases hplace

/-- The handler takes out live entries rightly. What else it does is left open. -/
def TakesOut (handler : Handler (Bucket κ ν) Place) : Prop :=
  forall (b : Bucket κ ν) place, b.Has place -> handler.edit b place = b.remove? place

def obliging : Handler (Bucket κ ν) Place where
  merge := merge
  edit b place := some ((b.remove? place).getD b)

theorem takesOut_obliging :
    TakesOut (obliging : Handler (Bucket κ ν) Place) := by
  intro b place hhas
  rcases hhas.exists_remove? with ⟨left, hremove⟩
  simp only [obliging, hremove, Option.getD_some]

end Bucket

namespace Dictionary

/-! ## Where nothing should go -/

/--
Deletes a key with a handler of any kind. It comes to `lost` if an entry is found and then not taken
out, and to `drained` if one is taken out of none.
-/
def removeWith (handler : Handler (Bucket κ ν) Place) (lost drained : Removal κ ν)
    (keying : Keying α κ) (m : Dictionary κ ν) (key : κ) : Action α (Removal κ ν) := do
  let hash ← keying.nodeKey key
  match m.index.get? hash with
  | none => return .absent m
  | some bucket =>
      match ← bucket.find? keying key with
      | none => return .absent m
      | some place =>
          match m.index.modify handler hash place with
          | (_, false) => return lost
          | (index, true) =>
              if m.size = 0 then
                return drained
              else
                let smaller : Dictionary κ ν := { m with
                  index := index, size := m.size - 1, deletions := m.deletions + 1 }
                return { found := true, map := smaller.settle.1, event := smaller.settle.2 }

/-- Whatever sequences answer, nothing gets in the way once the key to be deleted is found. -/
structure DeletesSafely (keying : Keying α κ) (m : Dictionary κ ν) (key : κ) : Prop where
  /-- What is found in a bucket is alive, the tree takes it out, and it was counted. -/
  found : forall hash b, m.index.get? hash = some b ->
    (b.find? keying key).Always fun _ outcome =>
      forall place, outcome = .ok (some place) ->
        b.Has place ∧ (m.index.modify Bucket.handler hash place).2 = true ∧ 1 ≤ m.size
  /-- The handler is asked to take out live entries only, and no other mishap can happen. -/
  certain : forall handler lost drained, Bucket.TakesOut handler ->
    m.removeWith handler lost drained keying key = m.remove keying key

theorem modify_of_has {m : Dictionary κ ν} {hash : Int64} {b : Bucket κ ν}
    (hget : m.index.get? hash = some b) {place : Place} (hhas : b.Has place) :
    exists index, m.index.modify Bucket.handler hash place = (index, true) := by
  rcases hhas.exists_remove? with ⟨left, hremove⟩
  have hedit : Bucket.handler.edit b place = some left := hremove
  exact Index.modify_of_edit hget hedit

theorem Kept.size_pos {policy : Policy} {m : Dictionary κ ν} (h : m.Kept policy) {hash : Int64}
    {b : Bucket κ ν} (hget : m.index.get? hash = some b) (hlive : b.deleted = false) :
    1 ≤ m.size := by
  rw [h.counted, (m.toList_perm_candidates hash).length_eq, candidates_of_get? hget,
    Bucket.entries_of_live hlive, List.length_append, List.length_cons]
  omega

theorem modify_of_takesOut {handler : Handler (Bucket κ ν) Place}
    (htakes : Bucket.TakesOut handler) {m : Dictionary κ ν} {hash : Int64} {b : Bucket κ ν}
    (hget : m.index.get? hash = some b) {place : Place} (hhas : b.Has place) :
    m.index.modify handler hash place = m.index.modify Bucket.handler hash place := by
  unfold Index.modify
  rw [Tree.modify?_congr]
  intro v hv
  cases hget.symm.trans hv
  exact htakes b place hhas

theorem Kept.deletesSafely {policy : Policy} {m : Dictionary κ ν} (h : m.Kept policy)
    (keying : Keying α κ) (key : κ) :
    m.DeletesSafely keying key where
  found := by
    intro hash b hget
    apply (b.always_find? keying key).mono
    intro _events outcome hfound place hplace
    have hhas := hfound place hplace
    rcases modify_of_has hget hhas with ⟨index, hmodify⟩
    exact ⟨hhas, by rw [hmodify], h.size_pos hget hhas.1⟩
  certain := by
    intro handler lost drained htakes
    unfold removeWith remove
    congr 1
    funext hash
    cases hget : m.index.get? hash with
    | none =>
        rfl
    | some b =>
        apply Action.Always.bind_congr
        apply (b.always_find? keying key).mono
        intro _events outcome hfound found hfound'
        cases found with
        | none =>
            rfl
        | some place =>
            have hhas := hfound place hfound'
            have hsize : m.size ≠ 0 := Nat.one_le_iff_ne_zero.mp (h.size_pos hget hhas.1)
            rcases modify_of_has hget hhas with ⟨index, hmodify⟩
            simp only [modify_of_takesOut htakes hget hhas, hmodify, if_neg hsize]

theorem Sound.kept {keying : Keying α κ} {m : Dictionary κ ν} (h : m.Sound keying) :
    m.Kept m.policy :=
  ⟨rfl, h.index, h.counted⟩

/--
Deleting cannot go wrong half-way, under any keying and in any dictionary that can be reached. Nor
can it in a dictionary that requests lead to while the sequences read answer what they like.
-/
theorem deletesSafely_of_reached (keying : Keying α κ) (key : κ) :
    (forall m : Dictionary κ ν, m.Reachable keying -> m.DeletesSafely keying key) ∧
      forall policy requests,
        ((withPolicy policy : Dictionary κ ν).serveAll keying requests).Always fun _ outcome =>
          exists replies m, outcome = .ok (replies, m) ∧ m.DeletesSafely keying key := by
  constructor
  · intro m hm
    exact hm.sound.kept.deletesSafely keying key
  · intro policy requests
    apply Action.Always.mono (ends_serveAll keying (withPolicy policy) requests)
    intro own outcome hserved
    rcases hserved with ⟨_own, _hamid, replies, m, houtcome, hserves⟩
    have hkept := (kept_withPolicy policy).servesAll hserves
    exact ⟨replies, m, houtcome, hkept.deletesSafely keying key⟩

/-- The last of the odd keys is found behind two others, and a handler that obliges will do. -/
theorem deletesSafely_parity :
    oddsAndTombstone.Reachable Keying.parity ∧
      exists b, oddsAndTombstone.index.get? 1 = some b ∧
        (b.find? Keying.parity 7).eval = .ok (some (.overflow 1)) ∧ b.Has (.overflow 1) ∧
          (oddsAndTombstone.index.modify Bucket.handler 1 (.overflow 1)).2 = true ∧
            1 ≤ oddsAndTombstone.size ∧
              oddsAndTombstone.removeWith Bucket.obliging (.absent empty) (.absent empty)
                Keying.parity 7 = oddsAndTombstone.remove Keying.parity 7 := by
  have hm := reachable_oddsAndTombstone
  have hsafe := (deletesSafely_of_reached Keying.parity 7).1 oddsAndTombstone hm
  have hplace := hsafe.found 1 ⟨1, 10, [(3, 30), (7, 70)], false⟩ rfl (.overflow 1) rfl
  exact ⟨hm, _, rfl, rfl, hplace.1, hplace.2.1, hplace.2.2,
    hsafe.certain _ _ _ Bucket.takesOut_obliging⟩

end Dictionary

end ValueStore
