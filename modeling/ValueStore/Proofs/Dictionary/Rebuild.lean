import ValueStore.Proofs.Dictionary.Garbage
import ValueStore.Proofs.Dictionary.Locality

/-!
# What a rebuild keeps

A rebuild puts the live nodes of a dictionary into an empty index, one after the other.
They have different keys, so each of them finds its key absent, and the handler, which
would take in one entry and drop the overflow behind it, is asked nothing. The new tree has
the same buckets at the same keys, save the tombstones, and whoever only looks at the
dictionary cannot tell the two apart.
-/

namespace ValueStore

variable {α β ε ε' κ ν : Type}

namespace Tree

theorem insert_of_absent (handler : Handler β ε) (handler' : Handler β ε') {key : Int64}
    {t : Tree β} (hget : t.get? key = none) (value : β) :
    t.insert handler key value = t.insert handler' key value := by
  induction t with
  | leaf =>
      rfl
  | node color l k v r ihl ihr =>
      unfold get? at hget
      unfold insert
      split at hget
      · rename_i hlt
        simp only [if_pos hlt, ihl hget]
      · split at hget
        · rename_i hlt hgt
          simp only [if_neg hlt, if_pos hgt, ihr hget]
        · cases hget

end Tree

namespace Index

theorem put_of_absent (handler : Handler β ε) (handler' : Handler β ε') {index : Index β}
    {key : Int64} (hget : index.get? key = none) (value : β) :
    index.put handler key value = index.put handler' key value := by
  unfold put
  rw [Tree.insert_of_absent handler handler' hget]

structure Fresh (index : Index β) (entries : List (Int64 × β)) : Prop where
  distinct : (entries.map Prod.fst).Nodup
  absent : forall entry, entry ∈ entries -> index.get? entry.1 = none

theorem Fresh.put {index : Index β} {entry : Int64 × β} {rest : List (Int64 × β)}
    (hfresh : index.Fresh (entry :: rest)) (h : index.RedBlack) (handler : Handler β ε) :
    (index.put handler entry.1 entry.2).Fresh rest := by
  rcases List.nodup_cons.mp hfresh.distinct with ⟨hnew, hrest⟩
  refine ⟨hrest, ?_⟩
  intro later hlater
  have hne : later.1 ≠ entry.1 := by
    intro heq
    exact hnew (heq ▸ List.mem_map_of_mem hlater)
  rw [h.sameBut_put handler entry.1 entry.2 later.1 hne]
  exact hfresh.absent later (List.mem_cons_of_mem entry hlater)

theorem Fresh.absent_in_turn {index : Index β} {before after : List (Int64 × β)}
    {entry : Int64 × β} (hfresh : index.Fresh (before ++ entry :: after)) (h : index.RedBlack)
    (handler : Handler β ε) :
    (index.putAll handler before).get? entry.1 = none := by
  induction before generalizing index with
  | nil =>
      exact hfresh.absent entry List.mem_cons_self
  | cons first rest ih =>
      exact ih (hfresh.put h handler) (h.put handler first.1 first.2)

theorem Fresh.putAll_eq {index : Index β} {entries : List (Int64 × β)}
    (hfresh : index.Fresh entries) (h : index.RedBlack) (handler : Handler β ε)
    (handler' : Handler β ε') :
    index.putAll handler entries = index.putAll handler' entries := by
  induction entries generalizing index with
  | nil =>
      rfl
  | cons entry rest ih =>
      have hrest := ih (hfresh.put h handler) (h.put handler entry.1 entry.2)
      have hput := put_of_absent handler handler' (hfresh.absent entry List.mem_cons_self) entry.2
      exact hrest.trans (congrArg (fun index => Index.putAll handler' index rest) hput)

end Index

namespace Request

def onlyLooks : Request κ ν -> Bool
  | get _ => true
  | getD _ _ => true
  | getWithFlag _ => true
  | contains _ => true
  | size => true
  | isEmpty => true
  | _ => false

end Request

namespace Dictionary

def liveNodes (m : Dictionary κ ν) : List (Int64 × Bucket κ ν) :=
  m.index.toList.filter fun node => !node.2.deleted

theorem index_compact_eq (m : Dictionary κ ν) :
    m.compact.index = Index.empty.putAll Bucket.handler m.liveNodes :=
  rfl

theorem fresh_liveNodes {m : Dictionary κ ν} (h : m.index.RedBlack) :
    Index.empty.Fresh m.liveNodes where
  distinct := (Index.nodup_keys h).sublist (List.filter_sublist.map Prod.fst)
  absent := fun _ _ => rfl

theorem redBlack_compact (m : Dictionary κ ν) :
    m.compact.index.RedBlack :=
  Index.redBlack_empty.putAll Bucket.handler m.liveNodes

theorem get?_compact {m : Dictionary κ ν} (h : m.index.RedBlack) (hash : Int64) :
    m.compact.index.get? hash = (m.index.get? hash).filter fun b => !b.deleted := by
  apply Option.ext
  intro b
  rw [← Index.mem_toList_iff_get? m.redBlack_compact, (index_compact h).mem_iff, List.mem_filter,
    Index.mem_toList_iff_get? h, Option.filter_eq_some_iff]

theorem bucketCount_compact {m : Dictionary κ ν} (h : m.index.RedBlack) :
    m.compact.bucketCount = m.liveNodes.length := by
  rw [bucketCount, m.redBlack_compact.counted, ← Tree.length_toList]
  exact (index_compact h).length_eq

/-! ## Looking -/

theorem lookup?_compact (keying : Keying α κ) {m : Dictionary κ ν} (h : m.index.RedBlack)
    (key : κ) :
    m.compact.lookup? keying key = m.lookup? keying key := by
  unfold lookup?
  congr 1
  funext hash
  rw [get?_compact h]
  cases hget : m.index.get? hash with
  | none =>
      rfl
  | some b =>
      cases hdeleted : b.deleted with
      | true =>
          rw [Option.filter_some_neg (by simp [hdeleted])]
          simp only [Bucket.find?, hdeleted, if_true]
          rfl
      | false =>
          rw [Option.filter_some_pos (by simp [hdeleted])]

theorem answer_compact (keying : Keying α κ) {m : Dictionary κ ν} (h : m.index.RedBlack)
    {request : Request κ ν} (hlooks : request.onlyLooks = true) :
    Prod.fst <$> m.compact.answer keying request = Prod.fst <$> m.answer keying request := by
  have hlookup := fun key => lookup?_compact keying h key
  cases request with
  | get key =>
      simp only [answer, get, hlookup, map_bind, map_pure]
  | getD key fallback =>
      simp only [answer, getD, hlookup, map_bind, map_pure]
  | getWithFlag key =>
      simp only [answer, hlookup, map_bind, map_pure]
  | contains key =>
      simp only [answer, contains, hlookup, map_bind, map_pure]
  | size =>
      rfl
  | isEmpty =>
      rfl
  | _ =>
      cases hlooks

/--
Under every keying, a rebuild of a dictionary that can be reached has at every key exactly the
bucket that was there, unless that is a tombstone, in a red-black search tree. It has no tombstones
and counts its nodes and entries rightly. Every node finds its key absent when it is put in, and any
other handler would have done the same. Whatever only looks at the dictionary asks the keying the
same and answers the same before and after, and a second rebuild keeps all buckets where they are.
-/
theorem Reachable.compact_bucket_by_bucket {keying : Keying α κ} {m : Dictionary κ ν}
    (h : m.Reachable keying) :
    (forall hash, m.compact.index.get? hash = (m.index.get? hash).filter fun b => !b.deleted) ∧
      m.compact.index.RedBlack ∧
      m.compact.bucketCount = m.liveNodes.length ∧ m.compact.tombstones = 0 ∧
      m.compact.deletions = 0 ∧ m.compact.size = m.size ∧ m.compact.policy = m.policy ∧
      (forall before node after, m.liveNodes = before ++ node :: after ->
        (Index.empty.putAll Bucket.handler before).get? node.1 = none) ∧
      (forall (ε : Type) (handler : Handler (Bucket κ ν) ε),
        m.compact.index = Index.empty.putAll handler m.liveNodes) ∧
      (forall key, m.compact.lookup? keying key = m.lookup? keying key) ∧
      (forall request : Request κ ν, request.onlyLooks = true ->
        Prod.fst <$> m.compact.answer keying request = Prod.fst <$> m.answer keying request) ∧
      forall hash, m.compact.compact.index.get? hash = m.compact.index.get? hash := by
  have hindex : m.index.RedBlack := h.sound.index
  have hfresh := fresh_liveNodes hindex
  refine ⟨get?_compact hindex, m.redBlack_compact, bucketCount_compact hindex,
    tombstones_compact hindex, rfl, rfl, rfl, ?_, ?_, lookup?_compact keying hindex,
    fun _ => answer_compact keying hindex, ?_⟩
  · intro before node after hsplit
    rw [hsplit] at hfresh
    exact hfresh.absent_in_turn Index.redBlack_empty Bucket.handler
  · intro ε handler
    rw [index_compact_eq]
    exact hfresh.putAll_eq Index.redBlack_empty Bucket.handler handler
  · intro hash
    rw [get?_compact m.redBlack_compact, get?_compact hindex, Option.filter_filter]
    simp only [Bool.and_self]

/-- The odd keys stay together in their bucket, and what was left of the even one is gone. -/
theorem compact_bucket_by_bucket_parity :
    oddsAndTombstone.Reachable Keying.parity ∧
      oddsAndTombstone.compact.index.get? 0 = none ∧
      oddsAndTombstone.compact.index.get? 1 = some ⟨1, 10, [(3, 30), (7, 70)], false⟩ ∧
      oddsAndTombstone.compact.bucketCount = 1 ∧
      oddsAndTombstone.compact.lookup? Keying.parity 3 =
        oddsAndTombstone.lookup? Keying.parity 3 := by
  rcases reachable_oddsAndTombstone.compact_bucket_by_bucket with
    ⟨hget, _, hcount, _, _, _, _, _, _, hlookup, _⟩
  exact ⟨reachable_oddsAndTombstone, (hget 0).trans rfl, (hget 1).trans rfl, hcount.trans rfl,
    hlookup 3⟩

end Dictionary

end ValueStore
