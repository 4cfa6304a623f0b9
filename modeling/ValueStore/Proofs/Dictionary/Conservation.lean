import ValueStore.Proofs.Dictionary.Cursor
import ValueStore.Proofs.Dictionary.Invariant

/-!
# No entry is lost

Whatever a keying answers, lawful or not, a dictionary gains exactly the entry that is
added, and loses exactly the one whose key the keying called the same as the key deleted.
A rebuild moves whole buckets and changes no entry. Adding and deleting are refused only
for what the keying said in a search through the entries of one bucket, one by one.
-/

namespace ValueStore

variable {α κ ν : Type}

namespace Dictionary

/--
How a search for a key ends. It goes through the live entries in the bucket of the key's hash for
as long as the keying tells their keys apart from the one sought.
-/
inductive Searched (keying : Keying α κ) (m : Dictionary κ ν) (key : κ) :
    Except Error (Option (κ × ν)) -> Prop where
  | unhashable {error : Error} :
      (keying.hash key).eval = .error error -> Searched keying m key (.error error)
  | refused {hash : Int64} {before after : List (κ × ν)} {entry : κ × ν} {error : Error} :
      keying.PlacedAt hash key -> m.candidates hash = before ++ entry :: after ->
      keying.Misses key before -> (keying.same entry.1 key).eval = .error error ->
      Searched keying m key (.error error)
  | found {hash : Int64} {before after : List (κ × ν)} {entry : κ × ν} :
      keying.PlacedAt hash key -> m.candidates hash = before ++ entry :: after ->
      keying.Misses key before -> keying.Same entry.1 key ->
      Searched keying m key (.ok (some entry))
  | absent {hash : Int64} :
      keying.PlacedAt hash key -> keying.Misses key (m.candidates hash) ->
      Searched keying m key (.ok none)

theorem searched_of_finds {keying : Keying α κ} {m : Dictionary κ ν} {key : κ} {hash : Int64}
    (hplaced : keying.PlacedAt hash key) {result : Except Error (Option Nat)}
    (hfinds : keying.Finds key (m.candidates hash) result) :
    m.Searched keying key
      (result.map fun found => found.bind fun i => (m.candidates hash)[i]?) := by
  generalize hcandidates : m.candidates hash = candidates at hfinds
  cases hfinds with
  | absent hmisses =>
      exact Searched.absent hplaced (hcandidates ▸ hmisses)
  | @found before after entry hmisses hsame =>
      have hentry : (before ++ entry :: after)[before.length]? = some entry := by
        simp
      simp only [Except.map, Option.bind_some, hentry]
      exact Searched.found hplaced hcandidates hmisses hsame
  | refused hmisses herror =>
      exact Searched.refused hplaced hcandidates hmisses herror

theorem put_outcome (keying : Keying α κ) (m : Dictionary κ ν) (key : κ) (value : ν) :
    (exists error, m.Searched keying key (.error error) ∧
        (m.put keying key value).eval = .error error) ∨
      (exists entry, m.Searched keying key (.ok (some entry)) ∧
        (m.put keying key value).eval = .error .duplicateKey) ∨
      (m.Searched keying key (.ok none) ∧
        exists larger, (m.put keying key value).eval = .ok larger) := by
  cases hhash : (keying.hash key).eval with
  | error error =>
      exact Or.inl ⟨error, Searched.unhashable hhash, put_eval_of_unhashable hhash m value⟩
  | ok word =>
      have hplaced := Keying.placedAt_of_hash hhash
      rcases put_eval hplaced m value with ⟨result, hfinds, hput⟩
      have hsearched := searched_of_finds hplaced hfinds
      cases result with
      | error error =>
          exact Or.inl ⟨error, hsearched, hput⟩
      | ok found =>
          cases found with
          | none =>
              exact Or.inr (Or.inr ⟨hsearched, _, hput⟩)
          | some i =>
              rcases hfinds.entry with ⟨entry, hentry, _hsame, _hmisses⟩
              simp only [Except.map, Option.bind_some, hentry] at hsearched
              exact Or.inr (Or.inl ⟨entry, hsearched, hput⟩)

theorem Sound.erase_outcome {keying : Keying α κ} {m : Dictionary κ ν} (h : m.Sound keying)
    (key : κ) :
    (exists error, m.Searched keying key (.error error) ∧
        (m.erase keying key).eval = .error error) ∨
      (m.Searched keying key (.ok none) ∧ (m.erase keying key).eval = .ok (false, m)) ∨
      (exists (entry : κ × ν) (taken : Dictionary κ ν),
        m.Searched keying key (.ok (some entry)) ∧ m.toList.Perm (entry :: taken.toList) ∧
          taken.settle.1.toList.Perm taken.toList ∧
            (m.erase keying key).eval = .ok (true, taken.settle.1)) := by
  rw [erase_eval]
  cases hhash : (keying.hash key).eval with
  | error error =>
      rw [remove_eval_of_unhashable hhash]
      exact Or.inl ⟨error, Searched.unhashable hhash, rfl⟩
  | ok word =>
      have hplaced := Keying.placedAt_of_hash hhash
      rcases remove_eval hplaced m with ⟨result, hfinds, hremove⟩
      have hsearched := searched_of_finds hplaced hfinds
      rw [hremove]
      cases result with
      | error error =>
          exact Or.inl ⟨error, hsearched, rfl⟩
      | ok found =>
          cases found with
          | none =>
              exact Or.inr (Or.inl ⟨hsearched, rfl⟩)
          | some i =>
              rcases hfinds.entry with ⟨entry, hentry, _hsame, _hmisses⟩
              rcases List.getElem?_eq_some_iff.mp hentry with ⟨hi, _heq⟩
              rcases exists_takenAt hi with ⟨taken, htaken⟩
              simp only [Except.map, Option.bind_some, hentry] at hsearched
              refine Or.inr (Or.inr ⟨entry, taken, hsearched, htaken.toList hentry,
                toList_settle (h.takenAt htaken hi).index, ?_⟩)
              simp only [Except.map, Option.map_some, removal_of_takenAt htaken]

theorem Sound.mem_candidates_iff {keying : Keying α κ} {m : Dictionary κ ν} (h : m.Sound keying)
    {hash : Int64} {entry : κ × ν} :
    entry ∈ m.candidates hash ↔ entry ∈ m.toList ∧ keying.PlacedAt hash entry.1 := by
  constructor
  · intro hcandidate
    have hmem := mem_toList_of_mem_candidates hcandidate
    unfold candidates at hcandidate
    cases hget : m.index.get? hash with
    | none =>
        simp [hget] at hcandidate
    | some b =>
        rw [hget] at hcandidate
        exact ⟨hmem, (h.bucket hget).placed_of_mem hcandidate⟩
  · intro hentry
    exact h.mem_candidates hentry.1 hentry.2

/-! ## What an answer tells about the search -/

theorem searched_of_put {keying : Keying α κ} {m larger : Dictionary κ ν} {key : κ} {value : ν}
    (hput : (m.put keying key value).eval = .ok larger) :
    m.Searched keying key (.ok none) := by
  rcases put_outcome keying m key value with
    ⟨error, _hsearched, herror⟩ | ⟨entry, _hsearched, herror⟩ | ⟨hsearched, _hlarger⟩
  · cases hput.symm.trans herror
  · cases hput.symm.trans herror
  · exact hsearched

theorem searched_of_put_refused {keying : Keying α κ} {m : Dictionary κ ν} {key : κ} {value : ν}
    {error : Error} (hput : (m.put keying key value).eval = .error error) :
    m.Searched keying key (.error error) ∨
      error = .duplicateKey ∧ exists entry, m.Searched keying key (.ok (some entry)) := by
  rcases put_outcome keying m key value with
    ⟨error', hsearched, herror⟩ | ⟨entry, hsearched, herror⟩ | ⟨_hsearched, larger, hlarger⟩
  · cases hput.symm.trans herror
    exact Or.inl hsearched
  · cases hput.symm.trans herror
    exact Or.inr ⟨rfl, entry, hsearched⟩
  · cases hput.symm.trans hlarger

theorem Sound.searched_of_erase {keying : Keying α κ} {m smaller : Dictionary κ ν}
    (h : m.Sound keying) {key : κ} (herase : (m.erase keying key).eval = .ok (true, smaller)) :
    exists (entry : κ × ν) (taken : Dictionary κ ν),
      m.Searched keying key (.ok (some entry)) ∧ m.toList.Perm (entry :: taken.toList) ∧
        smaller = taken.settle.1 ∧ smaller.toList.Perm taken.toList := by
  rcases h.erase_outcome key with
    ⟨error, _hsearched, herror⟩ | ⟨_hsearched, habsent⟩ |
      ⟨entry, taken, hsearched, htaken, hsettled, herased⟩
  · cases herase.symm.trans herror
  · cases herase.symm.trans habsent
  · cases herase.symm.trans herased
    exact ⟨entry, taken, hsearched, htaken, rfl, hsettled⟩

theorem Sound.searched_of_erase_absent {keying : Keying α κ} {m smaller : Dictionary κ ν}
    (h : m.Sound keying) {key : κ} (herase : (m.erase keying key).eval = .ok (false, smaller)) :
    m.Searched keying key (.ok none) ∧ smaller = m := by
  rcases h.erase_outcome key with
    ⟨error, _hsearched, herror⟩ | ⟨hsearched, habsent⟩ |
      ⟨entry, taken, _hsearched, _htaken, _hsettled, herased⟩
  · cases herase.symm.trans herror
  · cases herase.symm.trans habsent
    exact ⟨hsearched, rfl⟩
  · cases herase.symm.trans herased

theorem Sound.searched_of_erase_refused {keying : Keying α κ} {m : Dictionary κ ν}
    (h : m.Sound keying) {key : κ} {error : Error}
    (herase : (m.erase keying key).eval = .error error) :
    m.Searched keying key (.error error) := by
  rcases h.erase_outcome key with
    ⟨error', hsearched, herror⟩ | ⟨_hsearched, habsent⟩ |
      ⟨entry, taken, _hsearched, _htaken, _hsettled, herased⟩
  · cases herase.symm.trans herror
    exact hsearched
  · cases herase.symm.trans habsent
  · cases herase.symm.trans herased

/--
Under every keying, a dictionary that can be reached yields its live entries, as does each one made
from it. Adding puts in one entry and nothing else; deleting takes out one entry, whose key the
keying called the same after it had told all those before it apart, or changes nothing; and a
rebuild, asked for or not, takes out none. Adding is refused only for a key called the same, or for
the first refusal of the keying itself. None of this depends on what cells keep if hashing and
comparing the keys does not.
-/
theorem Reachable.entries_conserved {keying : Keying α κ} {m : Dictionary κ ν}
    (h : m.Reachable keying) (key : κ) (value : ν) :
    m.cursor.Yields m.toList ∧
      (forall hash entry, entry ∈ m.candidates hash ↔
        entry ∈ m.toList ∧ keying.PlacedAt hash entry.1) ∧
      (forall larger, (m.put keying key value).eval = .ok larger ->
        m.Searched keying key (.ok none) ∧ larger.cursor.Yields larger.toList ∧
          larger.toList.Perm ((key, value) :: m.toList)) ∧
      (forall error, (m.put keying key value).eval = .error error ->
        m.Searched keying key (.error error) ∨
          error = .duplicateKey ∧ exists entry, m.Searched keying key (.ok (some entry))) ∧
      (forall smaller, (m.erase keying key).eval = .ok (true, smaller) ->
        smaller.cursor.Yields smaller.toList ∧
          exists (entry : κ × ν) (taken : Dictionary κ ν),
            m.Searched keying key (.ok (some entry)) ∧ m.toList.Perm (entry :: taken.toList) ∧
              smaller = taken.settle.1 ∧ smaller.toList.Perm taken.toList) ∧
      (forall smaller, (m.erase keying key).eval = .ok (false, smaller) ->
        m.Searched keying key (.ok none) ∧ smaller = m) ∧
      (forall error, (m.erase keying key).eval = .error error ->
        m.Searched keying key (.error error)) ∧
      m.compact.cursor.Yields m.compact.toList ∧ m.compact.toList.Perm m.toList ∧
      forall Known, keying.Plain Known (fun sought => sought = key ∨ sought ∈ m.keys) ->
        (m.put keying key value).Plain Known ∧ (m.erase keying key).Plain Known := by
  have hsound := h.sound
  refine ⟨m.yields_cursor, fun _ _ => hsound.mem_candidates_iff, ?_, ?_, ?_, ?_, ?_,
    m.compact.yields_cursor, toList_compact hsound.index, ?_⟩
  · intro larger hput
    exact ⟨searched_of_put hput, larger.yields_cursor, toList_put hput⟩
  · intro error hput
    exact searched_of_put_refused hput
  · intro smaller herase
    exact ⟨smaller.yields_cursor, hsound.searched_of_erase herase⟩
  · intro smaller herase
    exact hsound.searched_of_erase_absent herase
  · intro error herase
    exact hsound.searched_of_erase_refused herase
  · intro Known hplain
    have hkeys : m.KeysKnown fun sought => sought = key ∨ sought ∈ m.keys :=
      fun entry hentry => Or.inr (List.mem_map_of_mem hentry)
    exact ⟨plain_put hplain hkeys (Or.inl rfl) value, plain_erase hplain hkeys (Or.inl rfl)⟩

end Dictionary

def Keying.successor : Keying Unit Nat where
  hash _ := return 0
  same stored sought :=
    if stored = 7 then Action.fail (.incomparable "seven" "number")
    else return stored + 1 == sought

/-- The primary entry gives way to the last one, and a search ends where it is refused. -/
theorem Dictionary.entries_conserved_successor :
    exists m smaller : Dictionary Nat Nat,
      m.Reachable Keying.successor ∧ m.toList = [(1, 10), (5, 50), (7, 70)] ∧
        (m.erase Keying.successor 2).eval = .ok (true, smaller) ∧
        smaller.cursor.Yields [(7, 70), (5, 50)] ∧
        (exists entry, m.Searched Keying.successor 2 (.ok (some entry)) ∧
          m.toList.Perm (entry :: smaller.toList)) ∧
        (m.put Keying.successor 9 90).eval = .error (.incomparable "seven" "number") ∧
        m.Searched Keying.successor 9 (.error (.incomparable "seven" "number")) := by
  have hrun : exists replies m smaller, ((withPolicy ⟨0, 1⟩ : Dictionary Nat Nat).serveAll
      Keying.successor [.put 1 10, .put 5 50, .put 7 70]).eval = .ok (replies, m) ∧
        m.toList = [(1, 10), (5, 50), (7, 70)] ∧
        (m.erase Keying.successor 2).eval = .ok (true, smaller) ∧
        smaller.toList = [(7, 70), (5, 50)] ∧
        (m.put Keying.successor 9 90).eval = .error (.incomparable "seven" "number") :=
    ⟨_, _, _, rfl, rfl, rfl, rfl, rfl⟩
  rcases hrun with ⟨replies, m, smaller, hrun, hentries, herase, hleft, hput⟩
  have hm := (Reachable.withPolicy ⟨0, 1⟩).serveAll hrun
  rcases hm.entries_conserved 2 20 with ⟨_, _, _, _, herased, _⟩
  rcases hm.entries_conserved 9 90 with ⟨_, _, _, hrefused, _⟩
  rcases herased smaller herase with ⟨hyields, entry, taken, hsearched, htaken, _hsettle, hperm⟩
  rw [hleft] at hyields
  refine ⟨m, smaller, hm, hentries, herase, hyields,
    ⟨entry, hsearched, htaken.trans (hperm.symm.cons entry)⟩, hput, ?_⟩
  exact (hrefused _ hput).resolve_right fun hduplicate => by cases hduplicate.1

end ValueStore
