import ValueStore.Proofs.Dictionary.Invariant

/-!
# Garbage stays bounded

A deletion makes at most one tombstone, and nothing else makes any, so the tombstones are
bounded by the deletions counted and what a postponed rebuild has left behind: fewer than
the policy's minimum. The count of deletions itself is never left above the threshold.
-/

namespace ValueStore

variable {α κ ν : Type}

namespace Dictionary

/-! ## What each operation does to the tombstones -/

def isTombstone (node : Int64 × Bucket κ ν) : Bool :=
  node.2.deleted

theorem tombstones_of_perm {m : Dictionary κ ν} {nodes : List (Int64 × Bucket κ ν)}
    (hindex : m.index.toList.Perm nodes) :
    m.tombstones = nodes.countP isTombstone :=
  hindex.countP_eq _

theorem not_deleted_merge (b : Bucket κ ν) (key : κ) (value : ν) :
    (b.merge (.single key value)).deleted = false := by
  cases hdeleted : b.deleted <;> simp [Bucket.merge, hdeleted, Bucket.single]

theorem tombstones_added_le (m : Dictionary κ ν) (hash : Int64) (key : κ) (value : ν) :
    (m.added hash key value).tombstones ≤ m.tombstones := by
  cases hget : m.index.get? hash with
  | none =>
      have hput := Index.toList_put_absent Bucket.handler hget (.single key value)
      rw [tombstones_of_perm (m := m.added hash key value) hput, List.countP_cons_of_neg]
      · exact Nat.le_refl _
      · exact Bool.false_ne_true
  | some b =>
      have hput := Index.toList_put_present Bucket.handler hget (.single key value)
      rw [tombstones_of_perm (m := m.added hash key value) hput,
        tombstones_of_perm (Index.toList_perm_of_get? hget), List.countP_cons_of_neg]
      · exact (List.sublist_cons_self _ _).countP_le
      · simp [isTombstone, Bucket.handler, not_deleted_merge]

theorem TakenAt.tombstones_le {m after : Dictionary κ ν} {hash : Int64} {i : Nat}
    (h : m.TakenAt hash i after) (hi : i < (m.candidates hash).length) :
    after.tombstones ≤ m.tombstones + 1 := by
  rcases h.bucket hi with ⟨b, left, hget, _hremoved, hperm⟩
  rw [tombstones_of_perm hperm, tombstones_of_perm (Index.toList_perm_of_get? hget),
    List.countP_cons, List.countP_cons]
  split <;> split <;> omega

theorem tombstones_compact {m : Dictionary κ ν} (h : m.index.RedBlack) :
    m.compact.tombstones = 0 := by
  rw [tombstones_of_perm (index_compact h), List.countP_eq_zero]
  intro node hnode
  have hlive := (List.mem_filter.mp hnode).2
  rw [Bool.not_eq_eq_eq_not, Bool.not_true] at hlive
  rw [isTombstone, hlive]
  exact Bool.false_ne_true

/-! ## The two counts together -/

/-- Between two requests: the count of deletions is within the threshold, and the tombstones
exceed it by less than the minimum. -/
structure Tidy (m : Dictionary κ ν) : Prop where
  deletions : m.deletions ≤ m.policy.threshold
  tombstones : m.tombstones < m.deletions + max m.policy.minimum 1

theorem tidy_withPolicy (policy : Policy) :
    (withPolicy policy : Dictionary κ ν).Tidy where
  deletions := Nat.zero_le _
  tombstones := Nat.lt_add_left 0 (Nat.lt_of_lt_of_le Nat.zero_lt_one (Nat.le_max_right _ _))

theorem Tidy.added {m : Dictionary κ ν} (h : m.Tidy) (hash : Int64) (key : κ) (value : ν) :
    (m.added hash key value).Tidy where
  deletions := h.deletions
  tombstones := Nat.lt_of_le_of_lt (tombstones_added_le m hash key value) h.tombstones

theorem tidy_compact {m : Dictionary κ ν} (h : m.index.RedBlack) :
    m.compact.Tidy where
  deletions := Nat.zero_le _
  tombstones := by
    rw [tombstones_compact h]
    exact Nat.lt_add_left 0 (Nat.lt_of_lt_of_le Nat.zero_lt_one (Nat.le_max_right _ _))

theorem tidy_settle {m : Dictionary κ ν} (h : m.index.RedBlack)
    (htombstones : m.tombstones < m.deletions + max m.policy.minimum 1) :
    m.settle.1.Tidy := by
  unfold settle
  split
  · rename_i hdeletions
    exact ⟨hdeletions, htombstones⟩
  · split
    · rename_i hfew
      -- a postponed rebuild leaves fewer tombstones than the minimum and starts counting anew
      refine ⟨Nat.zero_le _, ?_⟩
      show m.tombstones < 0 + max m.policy.minimum 1
      rw [Nat.zero_add]
      exact Nat.lt_of_lt_of_le hfew (Nat.le_max_left _ _)
    · exact tidy_compact h

theorem Tidy.takenAt {m after : Dictionary κ ν} (h : m.Tidy) {hash : Int64} {i : Nat}
    (htaken : m.TakenAt hash i after) (hi : i < (m.candidates hash).length)
    (hafter : after.index.RedBlack) :
    after.settle.1.Tidy := by
  apply tidy_settle hafter
  have hle := htaken.tombstones_le hi
  have hlt := h.tombstones
  rw [htaken.deletions, htaken.policy]
  omega

theorem Reachable.tidy {keying : Keying α κ} {m : Dictionary κ ν} (h : m.Reachable keying) :
    m.Tidy := by
  induction h with
  | withPolicy policy =>
      exact tidy_withPolicy policy
  | put _hreachable hput ih =>
      rcases put_eq_ok hput with ⟨hash, _hplaced, _hmisses, rfl⟩
      exact ih.added hash _ _
  | erase hreachable herase ih =>
      rcases erase_eq_ok herase with
        ⟨_hfound, rfl⟩ | ⟨_hfound, hash, i, entry, after, herased, rfl⟩
      · exact ih
      · rcases List.getElem?_eq_some_iff.mp herased.candidate with ⟨hi, _heq⟩
        have hafter := hreachable.sound.takenAt herased.taken hi
        exact ih.takenAt herased.taken hi hafter.index
  | compact hreachable _ih =>
      exact tidy_compact hreachable.sound.index

/-! ## Nodes -/

theorem length_le_countP_add_sum (nodes : List (Int64 × Bucket κ ν)) :
    nodes.length ≤ nodes.countP isTombstone + (nodes.map fun node => node.2.liveCount).sum := by
  induction nodes with
  | nil =>
      exact Nat.le_refl _
  | cons node rest ih =>
      rw [List.length_cons, List.countP_cons, List.map_cons, List.sum_cons]
      cases hdeleted : node.2.deleted with
      | true =>
          simp only [isTombstone, hdeleted, if_true]
          omega
      | false =>
          have hlive : node.2.liveCount = node.2.overflow.length + 1 := by
            simp [Bucket.liveCount, hdeleted]
          omega

theorem Sound.bucketCount_le {keying : Keying α κ} {m : Dictionary κ ν} (h : m.Sound keying) :
    m.bucketCount ≤ m.size + m.tombstones := by
  have hcount : m.bucketCount = m.index.toList.length :=
    h.index.counted.trans (Tree.length_toList m.index.root).symm
  rw [hcount, h.counted, length_toList, Nat.add_comm]
  exact length_le_countP_add_sum m.index.toList

/--
Under every keying and every policy, every run of requests from an empty dictionary ends with no
more deletions counted than the threshold allows, with tombstones that exceed them by less than the
minimum, and so with no more nodes than live entries and bounded garbage. Nor does the run depend on
what cells keep if hashing and comparing its keys does not.
-/
theorem serveAll_withPolicy_tidy (keying : Keying α κ) (policy : Policy)
    (requests : List (Request κ ν)) :
    (exists replies m,
        ((withPolicy policy : Dictionary κ ν).serveAll keying requests).eval = .ok (replies, m) ∧
          m.deletions ≤ policy.threshold ∧
          m.tombstones ≤ m.deletions + max policy.minimum 1 - 1 ∧
          m.tombstones ≤ policy.threshold + max policy.minimum 1 - 1 ∧
          m.bucketCount ≤ m.size + policy.threshold + max policy.minimum 1 - 1) ∧
      forall Known,
        keying.Plain Known (fun key => key ∈ requests.filterMap Request.key?) ->
          ((withPolicy policy : Dictionary κ ν).serveAll keying requests).Plain Known := by
  constructor
  · rcases exists_serveAll keying (withPolicy policy) requests with
      ⟨replies, m, hserveAll, hfollows⟩
    have hreachable := hfollows.reachable (Reachable.withPolicy policy)
    have hpolicy : m.policy = policy := hfollows.policy
    have hdeletions := hreachable.tidy.deletions
    have htombstones := hreachable.tidy.tombstones
    have hnodes := hreachable.sound.bucketCount_le
    rw [hpolicy] at hdeletions htombstones
    exact ⟨replies, m, hserveAll, hdeletions, by omega, by omega, by omega⟩
  · intro Known hplain
    exact plain_serveAll hplain (sound_withPolicy keying policy) (List.forall_mem_nil _)
      fun _ hkey => hkey

end Dictionary

end ValueStore
