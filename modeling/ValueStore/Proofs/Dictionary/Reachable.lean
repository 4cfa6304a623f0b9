import ValueStore.Proofs.Dictionary.Soundness

/-!
# Reachable dictionaries

The dictionaries that adding, deleting and rebuilding can make, starting from an
empty one under any policy. All of them are sound, whatever their keying answers.
-/

namespace ValueStore

namespace Dictionary

variable {α κ ν : Type}

inductive Reachable (keying : Keying α κ) : Dictionary κ ν -> Prop where
  | withPolicy (policy : Policy) : Reachable keying (withPolicy policy)
  | put {m larger : Dictionary κ ν} {key : κ} {value : ν} :
      Reachable keying m -> (m.put keying key value).eval = .ok larger ->
      Reachable keying larger
  | erase {m smaller : Dictionary κ ν} {key : κ} {found : Bool} :
      Reachable keying m -> (m.erase keying key).eval = .ok (found, smaller) ->
      Reachable keying smaller
  | compact {m : Dictionary κ ν} : Reachable keying m -> Reachable keying m.compact

theorem put_eq_ok {keying : Keying α κ} {m larger : Dictionary κ ν} {key : κ} {value : ν}
    (hput : (m.put keying key value).eval = .ok larger) :
    exists hash, keying.PlacedAt hash key ∧ keying.Misses key (m.candidates hash) ∧
      larger = m.added hash key value := by
  cases hhash : (keying.hash key).eval with
  | error error =>
      rw [put_eval_of_unhashable hhash] at hput
      cases hput
  | ok word =>
      have hplaced := Keying.placedAt_of_hash hhash
      rcases put_eval hplaced m value with ⟨result, hfinds, hresult⟩
      rw [hresult] at hput
      cases result with
      | error error =>
          cases hput
      | ok found =>
          cases found with
          | some i =>
              cases hput
          | none =>
              exact ⟨word.toInt64, hplaced, hfinds.misses, (Except.ok.inj hput).symm⟩

theorem exists_put_of_toList_eq_nil {keying : Keying α κ} {m : Dictionary κ ν}
    (hm : m.toList = []) {key : κ} (hkey : keying.Hashable key) (value : ν) :
    exists larger, (m.put keying key value).eval = .ok larger := by
  rcases hkey with ⟨word, hword⟩
  rcases put_eval (Keying.placedAt_of_hash hword) m value with ⟨result, hfinds, hput⟩
  have hnil : m.candidates word.toInt64 = [] := by
    rw [List.eq_nil_iff_forall_not_mem]
    intro entry hentry
    have hmem := mem_toList_of_mem_candidates hentry
    rw [hm] at hmem
    cases hmem
  rw [hnil] at hfinds
  have hresult := hfinds.of_nil
  rw [hresult] at hput
  exact ⟨_, hput⟩

structure Erased (keying : Keying α κ) (m : Dictionary κ ν) (key : κ) (hash : Int64) (i : Nat)
    (entry : κ × ν) (after : Dictionary κ ν) : Prop where
  placed : keying.PlacedAt hash key
  candidate : (m.candidates hash)[i]? = some entry
  same : keying.Same entry.1 key
  misses : keying.Misses key ((m.candidates hash).take i)
  taken : m.TakenAt hash i after

theorem erase_eq_ok {keying : Keying α κ} {m smaller : Dictionary κ ν} {key : κ} {found : Bool}
    (herase : (m.erase keying key).eval = .ok (found, smaller)) :
    (found = false ∧ smaller = m) ∨
      (found = true ∧ exists hash i entry after,
        Erased keying m key hash i entry after ∧ smaller = after.settle.1) := by
  rw [erase_eval] at herase
  cases hhash : (keying.hash key).eval with
  | error error =>
      rw [remove_eval_of_unhashable hhash] at herase
      cases herase
  | ok word =>
      have hplaced := Keying.placedAt_of_hash hhash
      rcases remove_eval hplaced m with ⟨result, hfinds, hremove⟩
      rw [hremove] at herase
      cases result with
      | error error =>
          cases herase
      | ok result =>
          cases result with
          | none =>
              cases herase
              exact Or.inl ⟨rfl, rfl⟩
          | some i =>
              rcases hfinds.entry with ⟨entry, hentry, hsame, hmisses⟩
              rcases List.getElem?_eq_some_iff.mp hentry with ⟨hi, _heq⟩
              rcases exists_takenAt hi with ⟨after, htaken⟩
              simp only [Except.map, Option.map_some, removal_of_takenAt htaken] at herase
              cases herase
              exact Or.inr ⟨rfl, _, i, entry, after, ⟨hplaced, hentry, hsame, hmisses, htaken⟩, rfl⟩

theorem toList_put {keying : Keying α κ} {m larger : Dictionary κ ν} {key : κ} {value : ν}
    (hput : (m.put keying key value).eval = .ok larger) :
    larger.toList.Perm ((key, value) :: m.toList) := by
  rcases put_eq_ok hput with ⟨hash, _hplaced, _hmisses, rfl⟩
  exact toList_added key value

theorem Sound.toList_erase {keying : Keying α κ} {m smaller : Dictionary κ ν}
    (h : m.Sound keying) {key : κ} {found : Bool}
    (herase : (m.erase keying key).eval = .ok (found, smaller)) :
    (found = false ∧ smaller = m) ∨
      (found = true ∧ exists entry, keying.Same entry.1 key ∧
        m.toList.Perm (entry :: smaller.toList)) := by
  rcases erase_eq_ok herase with ⟨hfound, rfl⟩ | ⟨hfound, hash, i, entry, after, herased, rfl⟩
  · exact Or.inl ⟨hfound, rfl⟩
  · rcases List.getElem?_eq_some_iff.mp herased.candidate with ⟨hi, _heq⟩
    have hsettled := toList_settle (h.takenAt herased.taken hi).index
    have htaken := herased.taken.toList herased.candidate
    exact Or.inr ⟨hfound, entry, herased.same, htaken.trans (hsettled.symm.cons entry)⟩

theorem Sound.put {keying : Keying α κ} {m larger : Dictionary κ ν} (h : m.Sound keying)
    {key : κ} {value : ν} (hput : (m.put keying key value).eval = .ok larger) :
    larger.Sound keying := by
  rcases put_eq_ok hput with ⟨hash, hplaced, hmisses, rfl⟩
  exact h.added hplaced hmisses value

theorem Sound.erase {keying : Keying α κ} {m smaller : Dictionary κ ν} (h : m.Sound keying)
    {key : κ} {found : Bool} (herase : (m.erase keying key).eval = .ok (found, smaller)) :
    smaller.Sound keying := by
  rcases erase_eq_ok herase with ⟨_hfound, rfl⟩ | ⟨_hfound, hash, i, entry, after, herased, rfl⟩
  · exact h
  · rcases List.getElem?_eq_some_iff.mp herased.candidate with ⟨hi, _heq⟩
    exact (h.takenAt herased.taken hi).settle

theorem erase_of_delete_eq_ok {keying : Keying α κ} {m smaller : Dictionary κ ν} {key : κ}
    (hdelete : (m.delete keying key).eval = .ok smaller) :
    (m.erase keying key).eval = .ok (true, smaller) := by
  rcases Action.exists_of_eval_bind_eq_ok hdelete with ⟨erased, herase, hanswer⟩
  rcases erased with ⟨found, after⟩
  cases found with
  | true =>
      rw [herase, Except.ok.inj hanswer]
  | false =>
      cases hanswer

theorem Reachable.delete {keying : Keying α κ} {m smaller : Dictionary κ ν}
    (h : m.Reachable keying) {key : κ} (hdelete : (m.delete keying key).eval = .ok smaller) :
    smaller.Reachable keying :=
  h.erase (erase_of_delete_eq_ok hdelete)

theorem Reachable.putAll {keying : Keying α κ} {m larger : Dictionary κ ν}
    (h : m.Reachable keying) {entries : List (κ × ν)}
    (hputAll : (m.putAll keying entries).eval = .ok larger) :
    larger.Reachable keying := by
  induction entries generalizing m with
  | nil =>
      cases hputAll
      exact h
  | cons entry rest ih =>
      rcases Action.exists_of_eval_bind_eq_ok hputAll with ⟨next, hput, hrest⟩
      exact ih (h.put hput) hrest

theorem Reachable.sound {keying : Keying α κ} {m : Dictionary κ ν} (h : m.Reachable keying) :
    m.Sound keying := by
  induction h with
  | withPolicy policy =>
      exact sound_withPolicy keying policy
  | put _hreachable hput ih =>
      exact ih.put hput
  | erase _hreachable herase ih =>
      exact ih.erase herase
  | compact _hreachable ih =>
      exact ih.compact

end Dictionary

end ValueStore
