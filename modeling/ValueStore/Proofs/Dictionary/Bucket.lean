import Mathlib.Data.List.Perm.Basic
import ValueStore.Proofs.Dictionary.Search

/-!
# Sound buckets

What a bucket promises under every keying: all of its keys have the hash of its
node, a tombstone has no overflow, and of any two live keys the keying has once
said that they differ. Taking an entry in or out keeps these promises.
-/

namespace ValueStore

namespace Keying

variable {α κ : Type}

/-- The keying was asked about two keys, in one order or the other, and told them apart. -/
def Apart (keying : Keying α κ) (a b : κ) : Prop :=
  keying.Differ a b ∨ keying.Differ b a

theorem Apart.symm {keying : Keying α κ} {a b : κ} (hapart : keying.Apart a b) :
    keying.Apart b a :=
  Or.symm hapart

def PlacedAt (keying : Keying α κ) (hash : Int64) (key : κ) : Prop :=
  (keying.nodeKey key).eval = .ok hash

theorem PlacedAt.hashable {keying : Keying α κ} {hash : Int64} {key : κ}
    (hplaced : keying.PlacedAt hash key) :
    keying.Hashable key := by
  unfold PlacedAt at hplaced
  rw [nodeKey_eval] at hplaced
  unfold Hashable
  cases hhash : (keying.hash key).eval with
  | error error =>
      rw [hhash] at hplaced
      cases hplaced
  | ok word =>
      exact ⟨word, rfl⟩

theorem placedAt_of_hash {keying : Keying α κ} {key : κ} {word : UInt64}
    (hhash : (keying.hash key).eval = .ok word) :
    keying.PlacedAt word.toInt64 key := by
  unfold PlacedAt
  rw [nodeKey_eval, hhash]
  rfl

end Keying

namespace Bucket

variable {α κ ν : Type}

def storedKeys (b : Bucket κ ν) : List κ :=
  b.key :: b.overflow.map Prod.fst

structure Sound (keying : Keying α κ) (hash : Int64) (b : Bucket κ ν) : Prop where
  placed : forall key, key ∈ b.storedKeys -> keying.PlacedAt hash key
  emptied : b.deleted = true -> b.overflow = []
  distinct : b.entries.Pairwise fun d e => keying.Apart d.1 e.1

theorem mem_storedKeys_of_mem_entries {b : Bucket κ ν} {entry : κ × ν}
    (hmem : entry ∈ b.entries) :
    entry.1 ∈ b.storedKeys := by
  cases hdeleted : b.deleted with
  | true =>
      rw [entries_of_deleted hdeleted] at hmem
      cases hmem
  | false =>
      rw [entries_of_live hdeleted] at hmem
      exact List.mem_map_of_mem (f := Prod.fst) hmem

theorem Sound.placed_of_mem {keying : Keying α κ} {hash : Int64} {b : Bucket κ ν}
    (h : b.Sound keying hash) {entry : κ × ν} (hmem : entry ∈ b.entries) :
    keying.PlacedAt hash entry.1 :=
  h.placed entry.1 (mem_storedKeys_of_mem_entries hmem)

theorem deleted_iff_entries_eq_nil {b : Bucket κ ν} :
    b.deleted = true ↔ b.entries = [] := by
  cases hdeleted : b.deleted <;> simp [entries, hdeleted]

/-! ## Taking an entry in -/

theorem entries_single (key : κ) (value : ν) :
    (single key value).entries = [(key, value)] :=
  rfl

theorem entries_merge (b : Bucket κ ν) (key : κ) (value : ν) :
    (b.merge (single key value)).entries = b.entries ++ [(key, value)] := by
  cases hdeleted : b.deleted <;> simp [merge, entries, hdeleted, single]

theorem Sound.single {keying : Keying α κ} {hash : Int64} {key : κ}
    (hplaced : keying.PlacedAt hash key) (value : ν) :
    (Bucket.single key value).Sound keying hash where
  placed := by
    intro stored hstored
    rcases List.mem_cons.mp hstored with rfl | hstored
    · exact hplaced
    · cases hstored
  emptied := fun _ => rfl
  distinct := by
    rw [entries_single]
    exact List.pairwise_singleton _ _

theorem Sound.merge {keying : Keying α κ} {hash : Int64} {b : Bucket κ ν}
    (h : b.Sound keying hash) {key : κ} (hplaced : keying.PlacedAt hash key)
    (hmisses : keying.Misses key b.entries) (value : ν) :
    (b.merge (Bucket.single key value)).Sound keying hash := by
  constructor
  · cases hdeleted : b.deleted with
    | true =>
        have hmerge : b.merge (Bucket.single key value) = Bucket.single key value := by
          simp [Bucket.merge, hdeleted]
        rw [hmerge]
        exact (Sound.single hplaced value).placed
    | false =>
        have hkeys : (b.merge (Bucket.single key value)).storedKeys = b.storedKeys ++ [key] := by
          simp [Bucket.merge, hdeleted, storedKeys, Bucket.single]
        intro stored hstored
        rw [hkeys] at hstored
        rcases List.mem_append.mp hstored with hstored | hstored
        · exact h.placed stored hstored
        · rw [List.mem_singleton.mp hstored]
          exact hplaced
  · intro hdeleted
    have hentries := (deleted_iff_entries_eq_nil.mp hdeleted)
    rw [entries_merge] at hentries
    simp at hentries
  · rw [entries_merge, List.pairwise_append]
    refine ⟨h.distinct, List.pairwise_singleton _ _, ?_⟩
    intro d hd e he
    rw [List.mem_singleton.mp he]
    exact Or.inl (hmisses d hd)

/-! ## Taking an entry out -/

theorem get?_ofNat {b : Bucket κ ν} {i : Nat} {entry : κ × ν}
    (hentry : b.entries[i]? = some entry) :
    b.get? (Place.ofNat i) = some entry := by
  cases hdeleted : b.deleted with
  | true =>
      simp [entries_of_deleted hdeleted] at hentry
  | false =>
      rw [entries_of_live hdeleted] at hentry
      rw [← hentry]
      cases i <;> simp [get?, Place.ofNat]

/-- What taking out the entry with the given number leaves behind. -/
structure RemovedAt (b : Bucket κ ν) (i : Nat) (after : Bucket κ ν) : Prop where
  entries : after.entries.Perm (b.entries.eraseIdx i)
  stored : forall key, key ∈ after.storedKeys -> key ∈ b.storedKeys
  emptied : after.deleted = true -> after.overflow = []

theorem removedAt_only {b : Bucket κ ν} (hlive : b.deleted = false) (hnil : b.overflow = []) :
    b.RemovedAt 0 { b with deleted := true } where
  entries := by simp [Bucket.entries, hlive, hnil]
  stored := fun _ hkey => hkey
  emptied := fun _ => hnil

theorem removedAt_primary {b : Bucket κ ν} (hlive : b.deleted = false) {front : List (κ × ν)}
    {last : κ × ν} (hfront : b.overflow = front ++ [last]) :
    b.RemovedAt 0 { key := last.1, value := last.2, overflow := front, deleted := false } where
  entries := by
    rw [entries_of_live hlive, hfront]
    exact (List.perm_append_singleton last front).symm
  stored := by
    intro key hkey
    have hmem : key ∈ b.overflow.map Prod.fst := by
      rw [hfront, List.map_append, List.mem_append]
      rcases List.mem_cons.mp hkey with rfl | hkey
      · exact Or.inr List.mem_cons_self
      · exact Or.inl hkey
    exact List.mem_cons_of_mem _ hmem
  emptied := by
    intro hdeleted
    cases hdeleted

theorem removedAt_overflow {b : Bucket κ ν} (hlive : b.deleted = false) (i : Nat) :
    b.RemovedAt (i + 1) { b with overflow := b.overflow.eraseIdx i } where
  entries := by simp [Bucket.entries, hlive]
  stored := by
    intro key hkey
    rcases List.mem_cons.mp hkey with rfl | hkey
    · exact List.mem_cons_self
    · have hsublist := (List.eraseIdx_sublist b.overflow i).map Prod.fst
      exact List.mem_cons_of_mem _ (hsublist.subset hkey)
  emptied := by
    intro hdeleted
    rw [hlive] at hdeleted
    cases hdeleted

theorem live_of_lt_length {b : Bucket κ ν} {i : Nat} (hi : i < b.entries.length) :
    b.deleted = false := by
  cases hdeleted : b.deleted with
  | true =>
      rw [entries_of_deleted hdeleted] at hi
      cases hi
  | false =>
      rfl

theorem remove?_ofNat {b : Bucket κ ν} {i : Nat} (hi : i < b.entries.length) :
    exists after, b.remove? (Place.ofNat i) = some after ∧ b.RemovedAt i after := by
  have hlive := live_of_lt_length hi
  rw [entries_of_live hlive] at hi
  unfold remove?
  rw [if_neg (by simp [hlive])]
  cases i with
  | zero =>
      cases hlast : b.overflow.getLast? with
      | none =>
          have hnil := List.getLast?_eq_none_iff.mp hlast
          exact ⟨_, by simp [Place.ofNat], removedAt_only hlive hnil⟩
      | some last =>
          rcases List.getLast?_eq_some_iff.mp hlast with ⟨front, hfront⟩
          exact ⟨_, by simp [Place.ofNat, hfront], removedAt_primary hlive hfront⟩
  | succ i =>
      have hi : i < b.overflow.length := Nat.lt_of_succ_lt_succ hi
      exact ⟨_, by simp [Place.ofNat, hi], removedAt_overflow hlive i⟩

theorem Sound.removedAt {keying : Keying α κ} {hash : Int64} {b after : Bucket κ ν} {i : Nat}
    (h : b.Sound keying hash) (hremoved : b.RemovedAt i after) :
    after.Sound keying hash where
  placed := fun key hkey => h.placed key (hremoved.stored key hkey)
  emptied := hremoved.emptied
  distinct := by
    rw [hremoved.entries.pairwise_iff Keying.Apart.symm]
    exact h.distinct.sublist (List.eraseIdx_sublist _ _)

end Bucket

end ValueStore
