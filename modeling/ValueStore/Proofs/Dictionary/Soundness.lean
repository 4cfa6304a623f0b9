import ValueStore.Proofs.Dictionary.Bucket
import ValueStore.Proofs.Tree.Contents

/-!
# Sound dictionaries

What every dictionary keeps, whatever its keying answers: its tree is a red-black
search tree, its buckets are sound at their nodes, and its size counts its live
entries. Each operation is described by the one bucket it looks into and by what it
does to the live entries, up to the order in which the tree lists them.
-/

namespace ValueStore

namespace Dictionary

variable {α κ ν : Type}

def candidates (m : Dictionary κ ν) (hash : Int64) : List (κ × ν) :=
  match m.index.get? hash with
  | none => []
  | some b => b.entries

def elsewhere (m : Dictionary κ ν) (hash : Int64) : List (κ × ν) :=
  (m.index.others hash).flatMap fun node => node.2.entries

structure Sound (keying : Keying α κ) (m : Dictionary κ ν) : Prop where
  index : m.index.RedBlack
  buckets : forall node, node ∈ m.index.toList -> node.2.Sound keying node.1
  counted : m.size = m.toList.length

theorem candidates_of_get? {m : Dictionary κ ν} {hash : Int64} {b : Bucket κ ν}
    (hget : m.index.get? hash = some b) :
    m.candidates hash = b.entries := by
  simp only [candidates, hget]

theorem toList_perm_of_index {m : Dictionary κ ν} {nodes : List (Int64 × Bucket κ ν)}
    (hindex : m.index.toList.Perm nodes) :
    m.toList.Perm (nodes.flatMap fun node => node.2.entries) :=
  hindex.flatMap_right _

theorem toList_perm_candidates (m : Dictionary κ ν) (hash : Int64) :
    m.toList.Perm (m.candidates hash ++ m.elsewhere hash) := by
  unfold candidates
  cases hget : m.index.get? hash with
  | none =>
      exact toList_perm_of_index (Index.toList_perm_of_get?_eq_none hget)
  | some b =>
      exact toList_perm_of_index (Index.toList_perm_of_get? hget)

theorem Sound.bucket {keying : Keying α κ} {m : Dictionary κ ν} (h : m.Sound keying)
    {hash : Int64} {b : Bucket κ ν} (hget : m.index.get? hash = some b) :
    b.Sound keying hash :=
  h.buckets (hash, b) (Index.mem_toList_of_get? hget)

theorem Sound.exists_placed {keying : Keying α κ} {m : Dictionary κ ν}
    (h : m.Sound keying) {entry : κ × ν} (hmem : entry ∈ m.toList) :
    exists hash, keying.PlacedAt hash entry.1 ∧ entry ∈ m.candidates hash := by
  rcases List.mem_flatMap.mp hmem with ⟨node, hnode, hentry⟩
  refine ⟨node.1, (h.buckets node hnode).placed_of_mem hentry, ?_⟩
  have hget := (Index.mem_toList_iff_get? h.index).mp hnode
  rw [candidates_of_get? hget]
  exact hentry

theorem Sound.mem_candidates {keying : Keying α κ} {m : Dictionary κ ν}
    (h : m.Sound keying) {hash : Int64} {entry : κ × ν} (hmem : entry ∈ m.toList)
    (hplaced : keying.PlacedAt hash entry.1) :
    entry ∈ m.candidates hash := by
  rcases h.exists_placed hmem with ⟨other, hother, hcandidate⟩
  have heq : hash = other := Except.ok.inj (hplaced.symm.trans hother)
  rw [heq]
  exact hcandidate

theorem mem_toList_of_mem_candidates {m : Dictionary κ ν} {hash : Int64} {entry : κ × ν}
    (hmem : entry ∈ m.candidates hash) :
    entry ∈ m.toList :=
  (m.toList_perm_candidates hash).mem_iff.mpr (List.mem_append_left _ hmem)

theorem sound_withPolicy (keying : Keying α κ) (policy : Policy) :
    (withPolicy policy : Dictionary κ ν).Sound keying where
  index := Index.redBlack_empty
  buckets := List.forall_mem_nil _
  counted := rfl

/-! ## Adding -/

def added (m : Dictionary κ ν) (hash : Int64) (key : κ) (value : ν) : Dictionary κ ν :=
  { m with
    index := m.index.put Bucket.handler hash (.single key value)
    size := m.size + 1 }

def search (keying : Keying α κ) (m : Dictionary κ ν) (hash : Int64) (key : κ) :
    Action α (Option Place) :=
  match m.index.get? hash with
  | none => return none
  | some b => b.find? keying key

theorem search_finds (keying : Keying α κ) (m : Dictionary κ ν) (hash : Int64) (key : κ) :
    exists result, keying.Finds key (m.candidates hash) result ∧
      (m.search keying hash key).eval = result.map (Option.map Place.ofNat) := by
  unfold search candidates
  cases hget : m.index.get? hash with
  | none =>
      exact ⟨.ok none, Keying.Finds.absent Keying.Misses.nil, rfl⟩
  | some b =>
      exact b.find?_finds keying key

theorem nodeKey_eval_of_unhashable {keying : Keying α κ} {key : κ} {error : Error}
    (herror : (keying.hash key).eval = .error error) :
    (keying.nodeKey key).eval = .error error := by
  rw [Keying.nodeKey_eval, herror]
  rfl

theorem put_eval_of_unhashable {keying : Keying α κ} {key : κ} {error : Error}
    (herror : (keying.hash key).eval = .error error) (m : Dictionary κ ν) (value : ν) :
    (m.put keying key value).eval = .error error :=
  Action.eval_bind_of_error (nodeKey_eval_of_unhashable herror) _

def addition (m : Dictionary κ ν) (hash : Int64) (key : κ) (value : ν) :
    Option Place -> Action α (Dictionary κ ν)
  | some _ => Action.fail .duplicateKey
  | none => return m.added hash key value

theorem put_eval {keying : Keying α κ} {hash : Int64} {key : κ}
    (hplaced : keying.PlacedAt hash key) (m : Dictionary κ ν) (value : ν) :
    exists result, keying.Finds key (m.candidates hash) result ∧
      (m.put keying key value).eval =
        match result with
        | .ok none => .ok (m.added hash key value)
        | .ok (some _) => .error .duplicateKey
        | .error error => .error error := by
  rcases m.search_finds keying hash key with ⟨result, hfinds, hsearch⟩
  refine ⟨result, hfinds, ?_⟩
  have hput : (m.put keying key value).eval =
      (m.search keying hash key >>= m.addition hash key value).eval := by
    unfold put search
    rw [Action.eval_bind_of_ok hplaced]
    cases hget : m.index.get? hash <;> rfl
  rw [hput]
  cases result with
  | error error =>
      exact Action.eval_bind_of_error hsearch _
  | ok found =>
      rw [Action.eval_bind_of_ok hsearch]
      cases found <;> rfl

theorem toList_added {m : Dictionary κ ν} {hash : Int64} (key : κ) (value : ν) :
    (m.added hash key value).toList.Perm ((key, value) :: m.toList) := by
  cases hget : m.index.get? hash with
  | none =>
      have hput := Index.toList_put_absent Bucket.handler hget (.single key value)
      exact toList_perm_of_index (m := m.added hash key value) hput
  | some b =>
      have hput := Index.toList_put_present Bucket.handler hget (.single key value)
      have hbefore : m.toList.Perm (b.entries ++ m.elsewhere hash) :=
        toList_perm_of_index (Index.toList_perm_of_get? hget)
      have hafter : (m.added hash key value).toList.Perm
          ((b.merge (.single key value)).entries ++ m.elsewhere hash) :=
        toList_perm_of_index (m := m.added hash key value) hput
      rw [Bucket.entries_merge, List.append_assoc] at hafter
      exact hafter.trans (List.perm_middle.trans (hbefore.symm.cons _))

theorem counted_added {m : Dictionary κ ν} (hcounted : m.size = m.toList.length) (hash : Int64)
    (key : κ) (value : ν) :
    (m.added hash key value).size = (m.added hash key value).toList.length := by
  rw [(toList_added key value).length_eq, List.length_cons, ← hcounted]
  rfl

theorem Sound.added {keying : Keying α κ} {m : Dictionary κ ν} (h : m.Sound keying)
    {hash : Int64} {key : κ} (hplaced : keying.PlacedAt hash key)
    (hmisses : keying.Misses key (m.candidates hash)) (value : ν) :
    (m.added hash key value).Sound keying where
  index := h.index.put _ _ _
  buckets := by
    intro node hnode
    have hothers : forall node, node ∈ m.index.others hash -> node.2.Sound keying node.1 := by
      intro node hnode
      have hmem := (m.index.toList_perm_others hash).mem_iff.mpr (List.mem_append_right _ hnode)
      exact h.buckets node hmem
    cases hget : m.index.get? hash with
    | none =>
        have hput := Index.toList_put_absent Bucket.handler hget (Bucket.single key value)
        rcases List.mem_cons.mp (hput.mem_iff.mp hnode) with rfl | hnode
        · exact Bucket.Sound.single hplaced value
        · exact h.buckets node hnode
    | some b =>
        have hput := Index.toList_put_present Bucket.handler hget (Bucket.single key value)
        rw [candidates_of_get? hget] at hmisses
        rcases List.mem_cons.mp (hput.mem_iff.mp hnode) with rfl | hnode
        · exact (h.bucket hget).merge hplaced hmisses value
        · exact hothers node hnode
  counted := counted_added h.counted hash key value

/-! ## Rebuilding -/

theorem toList_filter_live (nodes : List (Int64 × Bucket κ ν)) :
    ((nodes.filter fun node => !node.2.deleted).flatMap fun node => node.2.entries) =
      nodes.flatMap fun node => node.2.entries := by
  induction nodes with
  | nil =>
      rfl
  | cons node rest ih =>
      cases hdeleted : node.2.deleted with
      | true =>
          simp [hdeleted, ih, Bucket.entries_of_deleted hdeleted]
      | false =>
          simp [hdeleted, ih]

theorem index_compact {m : Dictionary κ ν} (h : m.index.RedBlack) :
    m.compact.index.toList.Perm (m.index.toList.filter fun node => !node.2.deleted) := by
  have hnodup : ((m.index.toList.filter fun node => !node.2.deleted).map Prod.fst).Nodup :=
    (Index.nodup_keys h).sublist (List.filter_sublist.map Prod.fst)
  have hall : m.compact.index.toList.Perm
      ((m.index.toList.filter fun node => !node.2.deleted) ++ []) :=
    Index.toList_putAll Bucket.handler Index.redBlack_empty hnodup (fun _ _ => rfl)
  rw [List.append_nil] at hall
  exact hall

theorem toList_compact {m : Dictionary κ ν} (h : m.index.RedBlack) :
    m.compact.toList.Perm m.toList := by
  have hperm := toList_perm_of_index (index_compact h)
  rw [toList_filter_live] at hperm
  exact hperm

theorem counted_compact {m : Dictionary κ ν} (h : m.index.RedBlack)
    (hcounted : m.size = m.toList.length) :
    m.compact.size = m.compact.toList.length := by
  rw [(toList_compact h).length_eq, ← hcounted]
  rfl

theorem Sound.compact {keying : Keying α κ} {m : Dictionary κ ν} (h : m.Sound keying) :
    m.compact.Sound keying where
  index := Index.redBlack_empty.putAll _ _
  buckets := by
    intro node hnode
    have hmem := (index_compact h.index).mem_iff.mp hnode
    exact h.buckets node (List.mem_filter.mp hmem).1
  counted := counted_compact h.index h.counted

theorem toList_settle {m : Dictionary κ ν} (h : m.index.RedBlack) :
    m.settle.1.toList.Perm m.toList := by
  unfold settle
  split
  · exact List.Perm.refl _
  · split
    · exact List.Perm.refl _
    · exact toList_compact h

theorem Sound.settle {keying : Keying α κ} {m : Dictionary κ ν} (h : m.Sound keying) :
    m.settle.1.Sound keying := by
  unfold Dictionary.settle
  split
  · exact h
  · split
    · exact ⟨h.index, h.buckets, h.counted⟩
    · exact h.compact

/-! ## Deleting -/

/-- One entry of one bucket taken out, before the policy is looked at. -/
structure TakenAt (m : Dictionary κ ν) (hash : Int64) (i : Nat) (after : Dictionary κ ν) :
    Prop where
  index : m.index.modify Bucket.handler hash (Place.ofNat i) = (after.index, true)
  size : after.size = m.size - 1
  deletions : after.deletions = m.deletions + 1
  policy : after.policy = m.policy

theorem exists_takenAt {m : Dictionary κ ν} {hash : Int64} {i : Nat}
    (hi : i < (m.candidates hash).length) :
    exists after, m.TakenAt hash i after := by
  cases hget : m.index.get? hash with
  | none =>
      simp [candidates, hget] at hi
  | some b =>
      rw [candidates_of_get? hget] at hi
      rcases Bucket.remove?_ofNat hi with ⟨left, hremove, _hremoved⟩
      have hedit : Bucket.handler.edit b (Place.ofNat i) = some left := hremove
      rcases Index.modify_of_edit hget hedit with ⟨index, hmodify⟩
      exact ⟨{ m with index := index, size := m.size - 1, deletions := m.deletions + 1 },
        hmodify, rfl, rfl, rfl⟩

theorem TakenAt.bucket {m after : Dictionary κ ν} {hash : Int64} {i : Nat}
    (h : m.TakenAt hash i after) (hi : i < (m.candidates hash).length) :
    exists b left, m.index.get? hash = some b ∧ b.RemovedAt i left ∧
      after.index.toList.Perm ((hash, left) :: m.index.others hash) := by
  rcases Index.toList_modify h.index with ⟨b, left, hget, hremove, hperm⟩
  rw [candidates_of_get? hget] at hi
  rcases Bucket.remove?_ofNat hi with ⟨left', hremove', hremoved⟩
  have heq : left = left' := Option.some.inj (hremove.symm.trans hremove')
  exact ⟨b, left, hget, heq ▸ hremoved, hperm⟩

theorem TakenAt.toList {m after : Dictionary κ ν} {hash : Int64} {i : Nat}
    (h : m.TakenAt hash i after) {entry : κ × ν} (hentry : (m.candidates hash)[i]? = some entry) :
    m.toList.Perm (entry :: after.toList) := by
  rcases List.getElem?_eq_some_iff.mp hentry with ⟨hi, hentry⟩
  rcases h.bucket hi with ⟨b, left, hget, hremoved, hperm⟩
  have hcandidates := candidates_of_get? hget
  have hbefore := m.toList_perm_candidates hash
  have hafter : after.toList.Perm (left.entries ++ m.elsewhere hash) :=
    toList_perm_of_index hperm
  have hmoved : (m.candidates hash).Perm (entry :: left.entries) := by
    have herase := List.getElem_cons_eraseIdx_perm hi
    rw [hentry, hcandidates] at herase
    rw [hcandidates]
    exact herase.symm.trans (hremoved.entries.symm.cons entry)
  exact hbefore.trans ((hmoved.append_right _).trans (hafter.symm.cons entry))

theorem TakenAt.redBlack {m after : Dictionary κ ν} {hash : Int64} {i : Nat}
    (h : m.TakenAt hash i after) (hm : m.index.RedBlack) :
    after.index.RedBlack := by
  have hredBlack := hm.modify Bucket.handler hash (Place.ofNat i)
  rw [h.index] at hredBlack
  exact hredBlack

theorem TakenAt.counted {m after : Dictionary κ ν} {hash : Int64} {i : Nat}
    (h : m.TakenAt hash i after) (hi : i < (m.candidates hash).length)
    (hcounted : m.size = m.toList.length) :
    after.size = after.toList.length := by
  have hlength := (h.toList (List.getElem?_eq_getElem hi)).length_eq
  rw [List.length_cons, ← hcounted] at hlength
  rw [h.size, hlength]
  rfl

theorem Sound.takenAt {keying : Keying α κ} {m after : Dictionary κ ν} (hm : m.Sound keying)
    {hash : Int64} {i : Nat} (h : m.TakenAt hash i after)
    (hi : i < (m.candidates hash).length) :
    after.Sound keying where
  index := h.redBlack hm.index
  buckets := by
    intro node hnode
    rcases h.bucket hi with ⟨b, left, hget, hremoved, hperm⟩
    rcases List.mem_cons.mp (hperm.mem_iff.mp hnode) with rfl | hnode
    · exact (hm.bucket hget).removedAt hremoved
    · have hmem := (m.index.toList_perm_others hash).mem_iff.mpr (List.mem_append_right _ hnode)
      exact hm.buckets node hmem
  counted := h.counted hi hm.counted

theorem remove_eval_of_unhashable {keying : Keying α κ} {key : κ} {error : Error}
    (herror : (keying.hash key).eval = .error error) (m : Dictionary κ ν) :
    (m.remove keying key).eval = .error error :=
  Action.eval_bind_of_error (nodeKey_eval_of_unhashable herror) _

def removal (m : Dictionary κ ν) (hash : Int64) : Option Place -> Removal κ ν
  | none => .absent m
  | some place =>
      match m.index.modify Bucket.handler hash place with
      | (_, false) => .absent m
      | (index, true) =>
          let smaller : Dictionary κ ν := { m with
            index := index, size := m.size - 1, deletions := m.deletions + 1 }
          { found := true, map := smaller.settle.1, event := smaller.settle.2 }

theorem removal_of_takenAt {m after : Dictionary κ ν} {hash : Int64} {i : Nat}
    (h : m.TakenAt hash i after) :
    m.removal hash (some (Place.ofNat i)) =
      { found := true, map := after.settle.1, event := after.settle.2 } := by
  rcases h with ⟨hindex, hsize, hdeletions, hpolicy⟩
  cases after
  subst hsize hdeletions hpolicy
  simp only [removal, hindex]

theorem remove_eval {keying : Keying α κ} {hash : Int64} {key : κ}
    (hplaced : keying.PlacedAt hash key) (m : Dictionary κ ν) :
    exists result, keying.Finds key (m.candidates hash) result ∧
      (m.remove keying key).eval =
        result.map fun found => m.removal hash (found.map Place.ofNat) := by
  rcases m.search_finds keying hash key with ⟨result, hfinds, hsearch⟩
  refine ⟨result, hfinds, ?_⟩
  have hremove : (m.remove keying key).eval =
      (m.search keying hash key >>= fun found => pure (m.removal hash found)).eval := by
    unfold remove search
    rw [Action.eval_bind_of_ok hplaced]
    cases hget : m.index.get? hash with
    | none =>
        rfl
    | some b =>
        simp only [Action.eval_bind]
        congr 1
        funext found
        cases found with
        | none =>
            rfl
        | some place =>
            unfold removal
            dsimp only
            rcases m.index.modify Bucket.handler hash place with ⟨index, answer⟩
            cases answer <;> rfl
  rw [hremove]
  cases result with
  | error error =>
      exact Action.eval_bind_of_error hsearch _
  | ok found =>
      exact Action.eval_bind_of_ok hsearch _

theorem erase_eval (keying : Keying α κ) (m : Dictionary κ ν) (key : κ) :
    (m.erase keying key).eval =
      (m.remove keying key).eval.map fun removal => (removal.found, removal.map) := by
  unfold erase
  cases hremove : (m.remove keying key).eval with
  | error error =>
      exact Action.eval_bind_of_error hremove _
  | ok removal =>
      rw [Action.eval_bind_of_ok hremove]
      cases removal.event <;> rfl

/-! ## Looking up -/

theorem lookup?_eval_of_unhashable {keying : Keying α κ} {key : κ} {error : Error}
    (herror : (keying.hash key).eval = .error error) (m : Dictionary κ ν) :
    (m.lookup? keying key).eval = .error error :=
  Action.eval_bind_of_error (nodeKey_eval_of_unhashable herror) _

theorem lookup?_eval {keying : Keying α κ} {hash : Int64} {key : κ}
    (hplaced : keying.PlacedAt hash key) (m : Dictionary κ ν) :
    exists result, keying.Finds key (m.candidates hash) result ∧
      (m.lookup? keying key).eval =
        result.map fun found => found.bind fun i => (m.candidates hash)[i]?.map Prod.snd := by
  unfold candidates lookup?
  rw [Action.eval_bind_of_ok hplaced]
  cases hget : m.index.get? hash with
  | none =>
      exact ⟨.ok none, Keying.Finds.absent Keying.Misses.nil, rfl⟩
  | some b =>
      rcases b.find?_finds keying key with ⟨result, hfinds, hfind⟩
      refine ⟨result, hfinds, ?_⟩
      cases result with
      | error error =>
          exact Action.eval_bind_of_error hfind _
      | ok found =>
          dsimp only
          rw [Action.eval_bind_of_ok hfind]
          cases found with
          | none =>
              rfl
          | some i =>
              rcases hfinds.entry with ⟨entry, hentry, _hsame, _hmisses⟩
              simp [Except.map, Bucket.get?_ofNat hentry, hentry]

end Dictionary

end ValueStore
