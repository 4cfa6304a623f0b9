import Mathlib.Algebra.Ring.Nat
import ValueStore.Proofs.Dictionary.Plain

/-!
# What every dictionary keeps

A run of requests always comes to an end, since a refused request leaves the dictionary
as it was. Whatever the keying answers on the way, the dictionary at the end has a
red-black search tree, counts its live entries rightly, keeps every key at the node of
its hash, and follows the policy it was made with.
-/

namespace ValueStore

variable {α κ ν : Type}

namespace Bucket

theorem length_entries (b : Bucket κ ν) :
    b.entries.length = b.liveCount := by
  unfold liveCount
  cases hdeleted : b.deleted with
  | true =>
      rw [entries_of_deleted hdeleted]
      rfl
  | false =>
      rw [entries_of_live hdeleted]
      rfl

end Bucket

namespace Dictionary

/-! ## The policy -/

theorem policy_settle (m : Dictionary κ ν) :
    m.settle.1.policy = m.policy := by
  unfold settle
  split
  · rfl
  · split <;> rfl

theorem policy_put {keying : Keying α κ} {m larger : Dictionary κ ν} {key : κ} {value : ν}
    (hput : (m.put keying key value).eval = .ok larger) :
    larger.policy = m.policy := by
  rcases put_eq_ok hput with ⟨hash, _hplaced, _hmisses, rfl⟩
  rfl

theorem policy_erase {keying : Keying α κ} {m smaller : Dictionary κ ν} {key : κ} {found : Bool}
    (herase : (m.erase keying key).eval = .ok (found, smaller)) :
    smaller.policy = m.policy := by
  rcases erase_eq_ok herase with ⟨_hfound, rfl⟩ | ⟨_hfound, hash, i, entry, after, herased, rfl⟩
  · rfl
  · rw [policy_settle, herased.taken.policy]

/-! ## One request -/

structure Follows (keying : Keying α κ) (m after : Dictionary κ ν) : Prop where
  reachable : m.Reachable keying -> after.Reachable keying
  policy : after.policy = m.policy

theorem follows_self (keying : Keying α κ) (m : Dictionary κ ν) :
    m.Follows keying m :=
  ⟨id, rfl⟩

theorem Follows.trans {keying : Keying α κ} {m next after : Dictionary κ ν}
    (hnext : m.Follows keying next) (hafter : next.Follows keying after) :
    m.Follows keying after :=
  ⟨fun h => hafter.reachable (hnext.reachable h), hafter.policy.trans hnext.policy⟩

theorem follows_put {keying : Keying α κ} {m larger : Dictionary κ ν} {key : κ} {value : ν}
    (hput : (m.put keying key value).eval = .ok larger) :
    m.Follows keying larger :=
  ⟨fun h => h.put hput, policy_put hput⟩

theorem follows_erase {keying : Keying α κ} {m smaller : Dictionary κ ν} {key : κ}
    {found : Bool} (herase : (m.erase keying key).eval = .ok (found, smaller)) :
    m.Follows keying smaller :=
  ⟨fun h => h.erase herase, policy_erase herase⟩

theorem follows_answer {keying : Keying α κ} {m after : Dictionary κ ν} {request : Request κ ν}
    {reply : Reply ν} (hanswer : (m.answer keying request).eval = .ok (reply, after)) :
    m.Follows keying after := by
  cases request with
  | put key value =>
      rcases Action.exists_of_eval_bind_eq_ok hanswer with ⟨larger, hput, hdone⟩
      cases hdone
      exact follows_put hput
  | delete key =>
      rcases Action.exists_of_eval_bind_eq_ok hanswer with ⟨smaller, hdelete, hdone⟩
      cases hdone
      exact follows_erase (erase_of_delete_eq_ok hdelete)
  | erase key =>
      rcases Action.exists_of_eval_bind_eq_ok hanswer with ⟨erased, herase, hdone⟩
      rcases erased with ⟨found, smaller⟩
      cases hdone
      exact follows_erase herase
  | compact =>
      cases hanswer
      exact ⟨fun h => h.compact, rfl⟩
  | clone =>
      cases hanswer
      exact follows_self keying m
  | size =>
      cases hanswer
      exact follows_self keying m
  | isEmpty =>
      cases hanswer
      exact follows_self keying m
  | _ =>
      rcases Action.exists_of_eval_bind_eq_ok hanswer with ⟨found, _hfound, hdone⟩
      cases hdone
      exact follows_self keying m

theorem exists_serve (keying : Keying α κ) (m : Dictionary κ ν) (request : Request κ ν) :
    exists reply after, (m.serve keying request).eval = .ok (reply, after) ∧
      m.Follows keying after := by
  unfold serve
  rw [Action.eval_recover]
  cases hanswer : (m.answer keying request).eval with
  | error error =>
      exact ⟨.refused error, m, rfl, follows_self keying m⟩
  | ok answered =>
      rcases answered with ⟨reply, after⟩
      exact ⟨reply, after, rfl, follows_answer hanswer⟩

/-! ## Runs of requests -/

theorem exists_serveAll (keying : Keying α κ) (m : Dictionary κ ν)
    (requests : List (Request κ ν)) :
    exists replies after, (m.serveAll keying requests).eval = .ok (replies, after) ∧
      m.Follows keying after := by
  induction requests generalizing m with
  | nil =>
      exact ⟨[], m, rfl, follows_self keying m⟩
  | cons request rest ih =>
      rcases exists_serve keying m request with ⟨reply, next, hserve, hnext⟩
      rcases ih next with ⟨replies, after, hserveAll, hafter⟩
      refine ⟨reply :: replies, after, ?_, hnext.trans hafter⟩
      unfold serveAll
      rw [Action.eval_bind_of_ok hserve]
      dsimp only
      rw [Action.eval_bind_of_ok hserveAll]
      rfl

theorem Reachable.serveAll {keying : Keying α κ} {m after : Dictionary κ ν}
    (h : m.Reachable keying) {requests : List (Request κ ν)} {replies : List (Reply ν)}
    (hserveAll : (m.serveAll keying requests).eval = .ok (replies, after)) :
    after.Reachable keying := by
  rcases exists_serveAll keying m requests with ⟨replies', after', hserveAll', hfollows⟩
  cases hserveAll.symm.trans hserveAll'
  exact hfollows.reachable h

/-! ## The invariant -/

theorem length_toList (m : Dictionary κ ν) :
    m.toList.length = (m.index.toList.map fun node => node.2.liveCount).sum := by
  unfold toList
  rw [List.length_flatMap]
  simp only [Bucket.length_entries]

structure Intact (keying : Keying α κ) (m : Dictionary κ ν) : Prop where
  tree : m.index.RedBlack
  counted : m.size = (m.index.toList.map fun node => node.2.liveCount).sum
  emptied : forall node, node ∈ m.index.toList -> node.2.deleted = true -> node.2.overflow = []
  /-- Every key, also a stale one, has the hash of its node. -/
  placed : forall node, node ∈ m.index.toList -> forall key, key ∈ node.2.storedKeys ->
    exists word, (keying.hash key).eval = .ok word ∧ word.toInt64 = node.1
  /-- Live entries are in the same node exactly if their keys have the same hash. -/
  together : forall node, node ∈ m.index.toList -> forall node', node' ∈ m.index.toList ->
    forall entry, entry ∈ node.2.entries -> forall entry', entry' ∈ node'.2.entries ->
      (node = node' ↔ (keying.hash entry.1).eval = (keying.hash entry'.1).eval)

theorem word_eq_of_toInt64_eq {word word' : UInt64} (heq : word.toInt64 = word'.toInt64) :
    word = word' :=
  congrArg Int64.toUInt64 heq

theorem word_of_placedAt {keying : Keying α κ} {hash : Int64} {key : κ}
    (hplaced : keying.PlacedAt hash key) :
    exists word, (keying.hash key).eval = .ok word ∧ word.toInt64 = hash := by
  rcases hplaced.hashable with ⟨word, hword⟩
  exact ⟨word, hword, Except.ok.inj ((Keying.placedAt_of_hash hword).symm.trans hplaced)⟩

theorem node_eq_of_key_eq {m : Dictionary κ ν} (h : m.index.RedBlack)
    {node node' : Int64 × Bucket κ ν} (hnode : node ∈ m.index.toList)
    (hnode' : node' ∈ m.index.toList) (hkey : node.1 = node'.1) :
    node = node' := by
  have hget : m.index.get? node.1 = some node.2 := (Index.mem_toList_iff_get? h).mp hnode
  have hget' : m.index.get? node'.1 = some node'.2 := (Index.mem_toList_iff_get? h).mp hnode'
  rw [← hkey, hget] at hget'
  exact Prod.ext hkey (Option.some.inj hget')

theorem Sound.placed_together {keying : Keying α κ} {m : Dictionary κ ν} (h : m.Sound keying)
    {node : Int64 × Bucket κ ν} (hnode : node ∈ m.index.toList) {key key' : κ}
    (hkey : key ∈ node.2.storedKeys) (hkey' : key' ∈ node.2.storedKeys) {i j : Int64}
    (hplaced : keying.PlacedAt i key) (hplaced' : keying.PlacedAt j key') :
    i = j := by
  have hbucket := h.buckets node hnode
  have hi : i = node.1 := Except.ok.inj (hplaced.symm.trans (hbucket.placed key hkey))
  have hj : j = node.1 := Except.ok.inj (hplaced'.symm.trans (hbucket.placed key' hkey'))
  rw [hi, hj]

theorem Sound.together {keying : Keying α κ} {m : Dictionary κ ν} (h : m.Sound keying)
    {node node' : Int64 × Bucket κ ν} (hnode : node ∈ m.index.toList)
    (hnode' : node' ∈ m.index.toList) {entry entry' : κ × ν} (hentry : entry ∈ node.2.entries)
    (hentry' : entry' ∈ node'.2.entries) :
    node = node' ↔ (keying.hash entry.1).eval = (keying.hash entry'.1).eval := by
  rcases word_of_placedAt ((h.buckets node hnode).placed_of_mem hentry) with
    ⟨word, hword, hplaced⟩
  rcases word_of_placedAt ((h.buckets node' hnode').placed_of_mem hentry') with
    ⟨word', hword', hplaced'⟩
  rw [hword, hword', Except.ok.injEq]
  constructor
  · intro heq
    rw [← heq, ← hplaced] at hplaced'
    exact (word_eq_of_toInt64_eq hplaced').symm
  · intro heq
    apply node_eq_of_key_eq h.index hnode hnode'
    rw [← hplaced, ← hplaced', heq]

theorem Sound.intact {keying : Keying α κ} {m : Dictionary κ ν} (h : m.Sound keying) :
    m.Intact keying where
  tree := h.index
  counted := h.counted.trans m.length_toList
  emptied := fun node hnode => (h.buckets node hnode).emptied
  placed := fun node hnode key hkey => word_of_placedAt ((h.buckets node hnode).placed key hkey)
  together := fun _ hnode _ hnode' _ hentry _ hentry' =>
    h.together hnode hnode' hentry hentry'

/--
Under every keying and every policy, every run of requests from an empty dictionary ends with a
dictionary that keeps the invariant and the policy. Nor does the run depend on what cells keep if
hashing and comparing its keys does not.
-/
theorem serveAll_withPolicy_intact (keying : Keying α κ) (policy : Policy)
    (requests : List (Request κ ν)) :
    (exists replies m,
        ((withPolicy policy : Dictionary κ ν).serveAll keying requests).eval = .ok (replies, m) ∧
          m.Intact keying ∧ m.policy = policy) ∧
      forall Known,
        keying.Plain Known (fun key => key ∈ requests.filterMap Request.key?) ->
          ((withPolicy policy : Dictionary κ ν).serveAll keying requests).Plain Known := by
  constructor
  · rcases exists_serveAll keying (withPolicy policy) requests with
      ⟨replies, m, hserveAll, hfollows⟩
    have hreachable := hfollows.reachable (Reachable.withPolicy policy)
    exact ⟨replies, m, hserveAll, hreachable.sound.intact, hfollows.policy⟩
  · intro Known hplain
    exact plain_serveAll hplain (sound_withPolicy keying policy) (List.forall_mem_nil _)
      fun _ hkey => hkey

end Dictionary

end ValueStore
