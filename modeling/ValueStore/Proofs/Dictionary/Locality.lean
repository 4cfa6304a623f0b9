import ValueStore.Proofs.Dictionary.Invariant
import ValueStore.Proofs.Dictionary.Simulation
import ValueStore.Proofs.Tree.Table

/-!
# What a change leaves alone

Adding and deleting an entry change the bucket of one hash. A bucket takes an entry in at
its end, and one that loses an entry keeps the order of the others, save that the last one
moves up if the primary entry is lost. All other buckets are as they were, and unless a node
is added or the tree is rebuilt, so is the order in which the tree lists its keys.
-/

namespace ValueStore

variable {α β ε κ ν : Type}

namespace Walk

theorem keys_draw {index : Index β} (h : index.RedBlack) (n : Nat) :
    ((ofIndex index).draw n).1.map (Option.map Prod.fst) =
      ((index.toList.map Prod.fst).take n).map some ++
        List.replicate (n - (index.toList.map Prod.fst).length) none := by
  rcases counted_ofIndex h with ⟨hpending, hcounted⟩
  rw [(hcounted.draw n).1, hpending, List.map_append, List.map_map, List.map_replicate,
    ← List.map_take, List.map_map, List.length_map]
  rfl

end Walk

namespace Index

/-- What one index has at a key, the other one has too, save perhaps at the key that is named. -/
def SameBut (index after : Index β) (key : Int64) : Prop :=
  forall other, other ≠ key -> after.get? other = index.get? other

structure SameOrder (index after : Index β) : Prop where
  listed : after.toList.map Prod.fst = index.toList.map Prod.fst
  yielded : forall n, ((Walk.ofIndex after).draw n).1.map (Option.map Prod.fst) =
    ((Walk.ofIndex index).draw n).1.map (Option.map Prod.fst)

theorem sameBut_of_update {index after : Index β} {key : Int64} {new : β}
    (hafter : after.get? = Function.update index.get? key (some new)) :
    index.SameBut after key := by
  intro other hne
  rw [hafter, Function.update_of_ne hne]

theorem RedBlack.sameBut_put {index : Index β} (h : index.RedBlack) (handler : Handler β ε)
    (key : Int64) (value : β) :
    index.SameBut (index.put handler key value) key :=
  sameBut_of_update (h.get?_put handler key value)

theorem RedBlack.sameOrder {index after : Index β} (h : index.RedBlack) (hafter : after.RedBlack)
    (hlisted : after.toList.map Prod.fst = index.toList.map Prod.fst) :
    index.SameOrder after where
  listed := hlisted
  yielded := fun n => by rw [Walk.keys_draw h, Walk.keys_draw hafter, hlisted]

end Index

namespace Bucket

/-- What the bucket of a hash, if there is one, becomes when it takes an entry in. -/
inductive Gains (key : κ) (value : ν) : Option (Bucket κ ν) -> Bucket κ ν -> Prop where
  | first : Gains key value none (single key value)
  | revived {b : Bucket κ ν} :
      b.deleted = true -> Gains key value (some b) (single key value)
  | appended {b : Bucket κ ν} :
      b.deleted = false ->
      Gains key value (some b) { b with overflow := b.overflow ++ [(key, value)] }

/-- What a live bucket becomes when it loses the entry with the given number. -/
inductive Loses (b : Bucket κ ν) : Nat -> Bucket κ ν -> Prop where
  | overflow {before after : List (κ × ν)} {entry : κ × ν} :
      b.deleted = false -> b.overflow = before ++ entry :: after ->
      Loses b (before.length + 1) { b with overflow := before ++ after }
  | primary {front : List (κ × ν)} {last : κ × ν} :
      b.deleted = false -> b.overflow = front ++ [last] ->
      Loses b 0 { key := last.1, value := last.2, overflow := front, deleted := false }
  | only : b.deleted = false -> b.overflow = [] -> Loses b 0 { b with deleted := true }

theorem gains_merged (table : Table (Bucket κ ν)) (hash : Int64) (key : κ) (value : ν) :
    Gains key value (table hash) (table.merged handler hash (single key value)) := by
  unfold Table.merged
  cases table hash with
  | none =>
      exact Gains.first
  | some b =>
      show Gains key value (some b) (b.merge (single key value))
      unfold merge
      split
      · rename_i hdeleted
        exact Gains.revived hdeleted
      · rename_i hlive
        exact Gains.appended (Bool.eq_false_iff.mpr hlive)

theorem loses_overflow {b : Bucket κ ν} (hlive : b.deleted = false) {i : Nat}
    (hi : i < b.overflow.length) :
    b.Loses (i + 1) { b with overflow := b.overflow.eraseIdx i } := by
  have hsplit : b.overflow = b.overflow.take i ++ b.overflow[i] :: b.overflow.drop (i + 1) := by
    rw [List.getElem_cons_drop, List.take_append_drop]
  have hloses := Loses.overflow hlive hsplit
  rw [List.length_take_of_le (Nat.le_of_lt hi)] at hloses
  rw [List.eraseIdx_eq_take_drop_succ]
  exact hloses

theorem loses_of_remove? {b left : Bucket κ ν} {i : Nat}
    (hremove : b.remove? (Place.ofNat i) = some left) :
    b.Loses i left := by
  unfold remove? at hremove
  cases hlive : b.deleted with
  | true =>
      rw [if_pos hlive] at hremove
      cases hremove
  | false =>
      rw [if_neg (Bool.eq_false_iff.mp hlive)] at hremove
      cases i with
      | zero =>
          dsimp only [Place.ofNat] at hremove
          split at hremove
          · rename_i hlast
            cases hremove
            exact Loses.only hlive (List.getLast?_eq_none_iff.mp hlast)
          · rename_i key value hlast
            cases hremove
            rcases List.getLast?_eq_some_iff.mp hlast with ⟨front, hfront⟩
            rw [hfront, List.dropLast_concat]
            exact Loses.primary hlive hfront
      | succ i =>
          dsimp only [Place.ofNat] at hremove
          split at hremove
          · rename_i hi
            cases hremove
            exact loses_overflow hlive hi
          · cases hremove

end Bucket

namespace Dictionary

def Removal.Compacts (removal : Removal κ ν) : Prop :=
  exists deletions tombstones live, removal.event = some (.compacted deletions tombstones live)

theorem index_settle {m : Dictionary κ ν}
    (hcalm : forall deletions tombstones live,
      m.settle.2 ≠ some (.compacted deletions tombstones live)) :
    m.settle.1.index = m.index := by
  unfold settle at hcalm ⊢
  split
  · rfl
  · rename_i hpassed
    split
    · rfl
    · rename_i hmany
      rw [if_neg hpassed, if_neg hmany] at hcalm
      exact (hcalm _ _ _ rfl).elim

theorem exists_removal_of_erase {keying : Keying α κ} {m smaller : Dictionary κ ν} {key : κ}
    {hash : Int64} (hplaced : keying.PlacedAt hash key)
    (herase : (m.erase keying key).eval = .ok (true, smaller)) :
    exists i taken, keying.Finds key (m.candidates hash) (.ok (some i)) ∧
      m.TakenAt hash i taken ∧ smaller = taken.settle.1 ∧
        (m.remove keying key).eval =
          .ok { found := true, map := taken.settle.1, event := taken.settle.2 } := by
  rcases remove_eval hplaced m with ⟨result, hfinds, hremove⟩
  rw [erase_eval, hremove] at herase
  cases result with
  | error error =>
      cases herase
  | ok found =>
      cases found with
      | none =>
          cases herase
      | some i =>
          rcases hfinds.entry with ⟨entry, hentry, _hsame, _hmisses⟩
          rcases List.getElem?_eq_some_iff.mp hentry with ⟨hi, _heq⟩
          rcases exists_takenAt hi with ⟨taken, htaken⟩
          simp only [Except.map, Option.map_some, removal_of_takenAt htaken] at herase hremove
          cases herase
          exact ⟨i, taken, hfinds, htaken, rfl, hremove⟩

theorem TakenAt.loses {m taken : Dictionary κ ν} (hm : m.index.RedBlack) {hash : Int64} {i : Nat}
    (h : m.TakenAt hash i taken) :
    m.index.SameBut taken.index hash ∧ m.index.SameOrder taken.index ∧
      exists b left, m.index.get? hash = some b ∧ b.Loses i left ∧
        taken.index.get? hash = some left := by
  have hredBlack := h.redBlack hm
  have hkeys := m.index.keys_modify Bucket.handler hash (Place.ofNat i)
  rw [h.index] at hkeys
  rcases hm.modify_cases Bucket.handler hash (Place.ofNat i) with
    ⟨_hedited, hrefused⟩ | ⟨left, after, hedited, hmodify, hget⟩
  · have hanswer : true = false := (Prod.mk.inj (h.index.symm.trans hrefused)).2
    cases hanswer
  · have hafter : after = taken.index := (Prod.mk.inj (hmodify.symm.trans h.index)).1
    subst hafter
    rcases Option.bind_eq_some_iff.mp hedited with ⟨b, hbucket, hremove⟩
    refine ⟨Index.sameBut_of_update hget, hm.sameOrder hredBlack hkeys,
      b, left, hbucket, Bucket.loses_of_remove? hremove, ?_⟩
    rw [hget, Function.update_self]

/--
Under every keying, a change of a dictionary that can be reached touches one bucket, that of the
hash of its key. Adding makes a bucket of the entry, revives a tombstone with it, or puts it behind
all the others, and lists the tree keys as before unless it made a bucket. Deleting, if it leads to
no rebuild, takes out the first entry the keying called the same and lists the tree keys as before;
if there is nothing to take out, nothing changes. None of this depends on what cells keep if hashing
and comparing the keys does not.
-/
theorem Reachable.changes_one_bucket {keying : Keying α κ} {m : Dictionary κ ν}
    (h : m.Reachable keying) {key : κ} {hash : Int64} (hplaced : keying.PlacedAt hash key)
    (value : ν) :
    (forall larger, (m.put keying key value).eval = .ok larger ->
        m.index.SameBut larger.index hash ∧
          (m.index.contains hash = true -> m.index.SameOrder larger.index) ∧
          exists b, larger.index.get? hash = some b ∧
            Bucket.Gains key value (m.index.get? hash) b) ∧
      (forall smaller, (m.erase keying key).eval = .ok (true, smaller) ->
        exists removal, (m.remove keying key).eval = .ok removal ∧ removal.map = smaller ∧
          (¬removal.Compacts ->
            m.index.SameBut smaller.index hash ∧ m.index.SameOrder smaller.index ∧
              exists b i left, m.index.get? hash = some b ∧
                keying.Finds key b.entries (.ok (some i)) ∧ b.Loses i left ∧
                  smaller.index.get? hash = some left)) ∧
      (forall after, (m.erase keying key).eval = .ok (false, after) -> after = m) ∧
      forall Known, keying.Plain Known (fun sought => sought = key ∨ sought ∈ m.keys) ->
        (m.put keying key value).Plain Known ∧ (m.erase keying key).Plain Known := by
  have hindex : m.index.RedBlack := h.sound.index
  refine ⟨?_, ?_, ?_, ?_⟩
  · intro larger hput
    rcases put_eq_ok hput with ⟨other, hother, _hmisses, rfl⟩
    cases hother.symm.trans hplaced
    have hget : (m.added hash key value).index.get? = _ :=
      hindex.get?_put Bucket.handler hash (.single key value)
    refine ⟨hindex.sameBut_put Bucket.handler hash (.single key value), ?_, ?_⟩
    · intro hpresent
      exact hindex.sameOrder (hindex.put _ _ _) (hindex.keys_put_present _ hpresent _)
    · refine ⟨_, ?_, Bucket.gains_merged m.index.get? hash key value⟩
      rw [hget, Table.put, Function.update_self]
  · intro smaller herase
    rcases exists_removal_of_erase hplaced herase with ⟨i, taken, hfinds, htaken, rfl, hremove⟩
    refine ⟨_, hremove, rfl, ?_⟩
    intro hcalm
    have hsettle : taken.settle.1.index = taken.index :=
      index_settle fun deletions tombstones live hevent =>
        hcalm ⟨deletions, tombstones, live, hevent⟩
    rcases htaken.loses hindex with ⟨hbut, horder, b, left, hbucket, hloses, hleft⟩
    rw [candidates_of_get? hbucket] at hfinds
    rw [hsettle]
    exact ⟨hbut, horder, b, i, left, hbucket, hfinds, hloses, hleft⟩
  · intro after herase
    rcases erase_eq_ok herase with ⟨_hfound, rfl⟩ | ⟨hfound, _⟩
    · rfl
    · cases hfound
  · intro Known hplain
    have hkeys : m.KeysKnown fun sought => sought = key ∨ sought ∈ m.keys :=
      fun entry hentry => Or.inr (List.mem_map_of_mem hentry)
    exact ⟨plain_put hplain hkeys (Or.inl rfl) value, plain_erase hplain hkeys (Or.inl rfl)⟩

def oddsAndTombstone : Dictionary Nat Nat :=
  { index := {
      root := .node .black (.node .red .leaf 0 ⟨2, 20, [], true⟩ .leaf)
        1 ⟨1, 10, [(3, 30), (7, 70)], false⟩ .leaf
      size := 2 }
    size := 3
    deletions := 1
    policy := ⟨5, 1⟩ }

theorem reachable_oddsAndTombstone :
    oddsAndTombstone.Reachable Keying.parity := by
  have hrun : ((withPolicy ⟨5, 1⟩ : Dictionary Nat Nat).serveAll Keying.parity
      [.put 1 10, .put 2 20, .put 3 30, .put 7 70, .erase 2]).eval =
        .ok ([.done, .done, .done, .done, .flag true], oddsAndTombstone) := by
    rfl
  exact (Reachable.withPolicy ⟨5, 1⟩).serveAll hrun

/-- An even key revives the tombstone, and when the first odd key goes the last one moves up. -/
theorem changes_one_bucket_parity :
    oddsAndTombstone.Reachable Keying.parity ∧ Keying.parity.PlacedAt 0 4 ∧
      Keying.parity.PlacedAt 1 1 ∧
      exists revived smaller,
        (oddsAndTombstone.put Keying.parity 4 40).eval = .ok revived ∧
          oddsAndTombstone.index.SameBut revived.index 0 ∧
          oddsAndTombstone.index.SameOrder revived.index ∧
          revived.index.get? 0 = some ⟨4, 40, [], false⟩ ∧
        (oddsAndTombstone.erase Keying.parity 1).eval = .ok (true, smaller) ∧
          oddsAndTombstone.index.SameBut smaller.index 1 ∧
          oddsAndTombstone.index.SameOrder smaller.index ∧
          smaller.index.get? 1 = some ⟨7, 70, [(3, 30)], false⟩ := by
  have hm := reachable_oddsAndTombstone
  have hfour : Keying.parity.PlacedAt 0 4 := rfl
  have hone : Keying.parity.PlacedAt 1 1 := rfl
  refine ⟨hm, hfour, hone, ?_⟩
  have hruns : exists revived removal,
      (oddsAndTombstone.put Keying.parity 4 40).eval = .ok revived ∧
        revived.index.get? 0 = some ⟨4, 40, [], false⟩ ∧
        (oddsAndTombstone.remove Keying.parity 1).eval = .ok removal ∧
        (oddsAndTombstone.erase Keying.parity 1).eval = .ok (true, removal.map) ∧
        removal.event = none ∧ removal.map.index.get? 1 = some ⟨7, 70, [(3, 30)], false⟩ :=
    ⟨_, _, rfl, rfl, rfl, rfl, rfl, rfl⟩
  rcases hruns with ⟨revived, removal, hput, hrevived, hremove, herase, hevent, hmoved⟩
  rcases (hm.changes_one_bucket hfour 40).1 revived hput with ⟨hbut, horder, _⟩
  rcases (hm.changes_one_bucket hone 0).2.1 removal.map herase with ⟨other, hother, _, hcalm⟩
  cases hremove.symm.trans hother
  have hquiet : ¬removal.Compacts := by
    intro hcompacts
    rcases hcompacts with ⟨deletions, tombstones, live, hcompacted⟩
    cases hevent.symm.trans hcompacted
  rcases hcalm hquiet with ⟨hbut', horder', _⟩
  exact ⟨revived, removal.map, hput, hbut, horder rfl, hrevived, herase, hbut', horder', hmoved⟩

end Dictionary

end ValueStore
