import ValueStore.Proofs.Dictionary.Conservation

/-!
# What requests are refused for

Every live key has a hash. So if any two keys that have a hash can be compared, a search
for such a key ends with an entry or without one, and a request about it is refused only
for what the search came to. A request about a key without a hash is refused as hashing
the key is. Two dictionaries hash and compare their live keys to be compared themselves,
which leaves the comparing of values as the only thing that can be refused.
-/

namespace ValueStore

variable {α κ ν : Type}

def Keying.ComparesHashable (keying : Keying α κ) : Prop :=
  forall a b, keying.Hashable a -> keying.Hashable b -> keying.Same a b ∨ keying.Differ a b

namespace Dictionary

/-! ## Searching -/

theorem mem_of_candidates_eq {m : Dictionary κ ν} {hash : Int64} {before after : List (κ × ν)}
    {entry : κ × ν} (hcandidates : m.candidates hash = before ++ entry :: after) :
    entry ∈ m.toList := by
  have hmem : entry ∈ m.candidates hash := by
    rw [hcandidates]
    exact List.mem_append_right _ List.mem_cons_self
  exact mem_toList_of_mem_candidates hmem

theorem Sound.found_of_searched {keying : Keying α κ} (hcompares : keying.ComparesHashable)
    {m : Dictionary κ ν} (h : m.Sound keying) {key : κ} (hkey : keying.Hashable key)
    {result : Except Error (Option (κ × ν))} (hsearched : m.Searched keying key result) :
    exists found, result = .ok found := by
  cases hsearched with
  | unhashable herror =>
      rcases hkey with ⟨hash, hhash⟩
      cases herror.symm.trans hhash
  | refused _hplaced hcandidates _hmisses herror =>
      have hstored := h.keysHashable _ (mem_of_candidates_eq hcandidates)
      rcases hcompares _ _ hstored hkey with hsame | hdiffer
      · cases herror.symm.trans hsame
      · cases herror.symm.trans hdiffer
  | found _hplaced _hcandidates _hmisses _hsame =>
      exact ⟨_, rfl⟩
  | absent _hplaced _hmisses =>
      exact ⟨_, rfl⟩

theorem Searched.eq_of_unhashable {keying : Keying α κ} {m : Dictionary κ ν} {key : κ}
    {error : Error} (herror : (keying.hash key).eval = .error error)
    {result : Except Error (Option (κ × ν))} (hsearched : m.Searched keying key result) :
    result = .error error := by
  have hnot : forall hash, ¬keying.PlacedAt hash key := by
    intro hash hplaced
    rcases hplaced.hashable with ⟨word, hword⟩
    cases herror.symm.trans hword
  cases hsearched with
  | unhashable herror' =>
      cases herror.symm.trans herror'
      rfl
  | refused hplaced _hcandidates _hmisses _herror =>
      exact (hnot _ hplaced).elim
  | found hplaced _hcandidates _hmisses _hsame =>
      exact (hnot _ hplaced).elim
  | absent hplaced _hmisses =>
      exact (hnot _ hplaced).elim

theorem lookup?_outcome (keying : Keying α κ) (m : Dictionary κ ν) (key : κ) :
    exists result, m.Searched keying key result ∧
      (m.lookup? keying key).eval = result.map (Option.map Prod.snd) := by
  cases hhash : (keying.hash key).eval with
  | error error =>
      exact ⟨.error error, Searched.unhashable hhash, lookup?_eval_of_unhashable hhash m⟩
  | ok word =>
      have hplaced := Keying.placedAt_of_hash hhash
      rcases lookup?_eval hplaced m with ⟨result, hfinds, hlookup⟩
      refine ⟨_, searched_of_finds hplaced hfinds, ?_⟩
      rw [hlookup]
      cases result with
      | error error =>
          rfl
      | ok found =>
          cases found <;> rfl

theorem Sound.lookup?_answers {keying : Keying α κ} (hcompares : keying.ComparesHashable)
    {m : Dictionary κ ν} (h : m.Sound keying) {key : κ} (hkey : keying.Hashable key) :
    exists found, m.Searched keying key (.ok found) ∧
      (m.lookup? keying key).eval = .ok (found.map Prod.snd) := by
  rcases lookup?_outcome keying m key with ⟨result, hsearched, hlookup⟩
  rcases h.found_of_searched hcompares hkey hsearched with ⟨found, rfl⟩
  exact ⟨found, hsearched, hlookup⟩

/-! ## Requests -/

/-- What a request is refused for if the search for its key ended like this. -/
def refusalAfter : Request κ ν -> Except Error (Option (κ × ν)) -> Option Error
  | _, .error error => some error
  | .put _ _, .ok found => if found.isSome then some .duplicateKey else none
  | .get _, .ok found => if found.isSome then none else some .keyNotFound
  | .delete _, .ok found => if found.isSome then none else some .keyNotFound
  | _, .ok _ => none

theorem put_refusal (keying : Keying α κ) (m : Dictionary κ ν) (key : κ) (value : ν) :
    exists result, m.Searched keying key result ∧
      (m.put keying key value).refusal? = refusalAfter (.put key value) result := by
  rcases put_outcome keying m key value with
    ⟨error, hsearched, herror⟩ | ⟨entry, hsearched, herror⟩ | ⟨hsearched, larger, hlarger⟩
  · exact ⟨_, hsearched, Action.refusal?_eq_some_iff.mpr herror⟩
  · exact ⟨_, hsearched, Action.refusal?_eq_some_iff.mpr herror⟩
  · exact ⟨_, hsearched, Action.refusal?_of_ok hlarger⟩

theorem Sound.erase_refusal {keying : Keying α κ} {m : Dictionary κ ν} (h : m.Sound keying)
    (key : κ) :
    exists result, m.Searched keying key result ∧
      (m.erase keying key).refusal? = refusalAfter (.erase key : Request κ ν) result ∧
      (m.delete keying key).refusal? = refusalAfter (.delete key : Request κ ν) result := by
  rcases h.erase_outcome key with
    ⟨error, hsearched, herror⟩ | ⟨hsearched, habsent⟩ |
      ⟨entry, taken, hsearched, _htaken, _hsettled, herased⟩
  · exact ⟨_, hsearched, Action.refusal?_eq_some_iff.mpr herror,
      Action.refusal?_bind_of_error herror _⟩
  · exact ⟨_, hsearched, Action.refusal?_of_ok habsent, Action.refusal?_bind_of_ok habsent _⟩
  · exact ⟨_, hsearched, Action.refusal?_of_ok herased, Action.refusal?_bind_of_ok herased _⟩

theorem lookup?_refusal (keying : Keying α κ) (m : Dictionary κ ν) (key : κ) :
    exists result, m.Searched keying key result ∧
      (m.lookup? keying key).refusal? = refusalAfter (.contains key) result ∧
      (m.get keying key).refusal? = refusalAfter (.get key) result := by
  rcases lookup?_outcome keying m key with ⟨result, hsearched, hlookup⟩
  refine ⟨result, hsearched, ?_⟩
  cases result with
  | error error =>
      exact ⟨Action.refusal?_eq_some_iff.mpr hlookup, Action.refusal?_bind_of_error hlookup _⟩
  | ok found =>
      refine ⟨Action.refusal?_of_ok hlookup, (Action.refusal?_bind_of_ok hlookup _).trans ?_⟩
      cases found <;> rfl

theorem Sound.answer_refusal {keying : Keying α κ} {m : Dictionary κ ν} (h : m.Sound keying)
    {request : Request κ ν} {key : κ} (hrequest : request.key? = some key) :
    exists result, m.Searched keying key result ∧
      (m.answer keying request).refusal? = refusalAfter request result := by
  cases request with
  | put key' value =>
      cases hrequest
      rcases put_refusal keying m key value with ⟨result, hsearched, hput⟩
      exact ⟨result, hsearched, (Action.refusal?_bind_pure _ _).trans hput⟩
  | delete key' =>
      cases hrequest
      rcases h.erase_refusal key with ⟨result, hsearched, _herase, hdelete⟩
      exact ⟨result, hsearched, (Action.refusal?_bind_pure _ _).trans hdelete⟩
  | erase key' =>
      cases hrequest
      rcases h.erase_refusal key with ⟨result, hsearched, herase, _hdelete⟩
      exact ⟨result, hsearched, (Action.refusal?_bind_pure _ _).trans herase⟩
  | get key' =>
      cases hrequest
      rcases lookup?_refusal keying m key with ⟨result, hsearched, _hlookup, hget⟩
      exact ⟨result, hsearched, (Action.refusal?_bind_pure _ _).trans hget⟩
  | getD key' fallback =>
      cases hrequest
      rcases lookup?_refusal keying m key with ⟨result, hsearched, hlookup, _hget⟩
      refine ⟨result, hsearched, (Action.refusal?_bind_pure _ _).trans ?_⟩
      exact (Action.refusal?_bind_pure _ _).trans (hlookup.trans (by cases result <;> rfl))
  | getWithFlag key' =>
      cases hrequest
      rcases lookup?_refusal keying m key with ⟨result, hsearched, hlookup, _hget⟩
      refine ⟨result, hsearched, (Action.refusal?_bind_pure _ _).trans ?_⟩
      exact hlookup.trans (by cases result <;> rfl)
  | contains key' =>
      cases hrequest
      rcases lookup?_refusal keying m key with ⟨result, hsearched, hlookup, _hget⟩
      refine ⟨result, hsearched, (Action.refusal?_bind_pure _ _).trans ?_⟩
      exact (Action.refusal?_bind_pure _ _).trans hlookup
  | _ =>
      cases hrequest

theorem Sound.answer_of_unhashable {keying : Keying α κ} {m : Dictionary κ ν}
    (h : m.Sound keying) {request : Request κ ν} {key : κ} (hrequest : request.key? = some key)
    {error : Error} (herror : (keying.hash key).eval = .error error) :
    (m.answer keying request).eval = .error error := by
  rcases h.answer_refusal hrequest with ⟨result, hsearched, hrefusal⟩
  cases hsearched.eq_of_unhashable herror
  exact Action.refusal?_eq_some_iff.mp hrefusal

theorem Sound.answer_of_hashable {keying : Keying α κ} (hcompares : keying.ComparesHashable)
    {m : Dictionary κ ν} (h : m.Sound keying) {request : Request κ ν} {key : κ}
    (hrequest : request.key? = some key) (hkey : keying.Hashable key) :
    exists found, m.Searched keying key (.ok found) ∧
      forall error, (m.answer keying request).eval = .error error ↔
        refusalAfter request (.ok found) = some error := by
  rcases h.answer_refusal hrequest with ⟨result, hsearched, hrefusal⟩
  rcases h.found_of_searched hcompares hkey hsearched with ⟨found, rfl⟩
  refine ⟨found, hsearched, ?_⟩
  intro error
  rw [← Action.refusal?_eq_some_iff, hrefusal]

theorem refusalAfter_ok {request : Request κ ν} {found : Option (κ × ν)} {error : Error}
    (hrefusal : refusalAfter request (.ok found) = some error) :
    error = .duplicateKey ∨ error = .keyNotFound := by
  cases request with
  | put key value =>
      cases found with
      | none =>
          cases hrefusal
      | some entry =>
          cases hrefusal
          exact Or.inl rfl
  | get key =>
      cases found with
      | none =>
          cases hrefusal
          exact Or.inr rfl
      | some entry =>
          cases hrefusal
  | delete key =>
      cases found with
      | none =>
          cases hrefusal
          exact Or.inr rfl
      | some entry =>
          cases hrefusal
  | _ =>
      cases hrefusal

/-! ## Comparing -/

theorem Sound.holdsAll_refused {keying : Keying α κ} (hcompares : keying.ComparesHashable)
    {left right : Dictionary κ ν} (hleft : left.Sound keying) (hright : right.Sound keying)
    {f : ν -> ν -> Action α Bool} {error : Error}
    (herror : (right.holdsAll keying f left.toList).eval = .error error) :
    exists d e, d ∈ left.toList ∧ e ∈ right.toList ∧ (f d.2 e.2).eval = .error error := by
  rcases Action.allM_refused herror with ⟨d, hd, hrefused⟩
  rcases hright.lookup?_answers hcompares (hleft.keysHashable d hd) with
    ⟨found, _hsearched, hlookup⟩
  rw [Action.eval_bind_of_ok hlookup] at hrefused
  cases found with
  | none =>
      cases hrefused
  | some entry =>
      rcases mem_of_lookup?_eq_some hlookup with ⟨e, he, hvalue⟩
      have hvalues : (f d.2 entry.2).eval = .error error := hrefused
      exact ⟨d, e, hd, he, hvalue ▸ hvalues⟩

theorem Sound.agree_refused {keying : Keying α κ} (hcompares : keying.ComparesHashable)
    {left right : Dictionary κ ν} (hleft : left.Sound keying) (hright : right.Sound keying)
    {f : ν -> ν -> Action α Bool} {error : Error}
    (herror : (left.agree keying f right).eval = .error error) :
    exists d e, d ∈ left.toList ∧ e ∈ right.toList ∧
      ((f d.2 e.2).eval = .error error ∨ (f e.2 d.2).eval = .error error) := by
  unfold agree at herror
  by_cases hsize : left.size = right.size
  · rw [if_pos hsize] at herror
    cases hforth : (right.holdsAll keying f left.toList).eval with
    | error error' =>
        cases (Action.eval_bind_of_error hforth _).symm.trans herror
        rcases hleft.holdsAll_refused hcompares hright hforth with ⟨d, e, hd, he, hrefused⟩
        exact ⟨d, e, hd, he, Or.inl hrefused⟩
    | ok answer =>
        rw [Action.eval_bind_of_ok hforth] at herror
        cases answer with
        | true =>
            rcases hright.holdsAll_refused hcompares hleft herror with ⟨e, d, he, hd, hrefused⟩
            exact ⟨d, e, hd, he, Or.inr hrefused⟩
        | false =>
            cases herror
  · rw [if_neg hsize] at herror
    cases herror

end Dictionary

end ValueStore
