import Mathlib.Data.List.Pairwise
import ValueStore.Proofs.Dictionary.Soundness

/-!
# Lawful keyings

A keying is lawful on some keys if comparing them never fails, is symmetric and
transitive, and respects their hashes. It need not be reflexive. Under a lawful
keying at most one live entry has the key sought, and searching its bucket is as
good as searching them all.
-/

namespace ValueStore

namespace Keying

variable {α κ ν : Type}

structure Lawful (keying : Keying α κ) (Known : κ -> Prop) : Prop where
  answers : forall a b, Known a -> Known b -> keying.Same a b ∨ keying.Differ a b
  symm : forall a b, Known a -> Known b -> keying.Same a b -> keying.Same b a
  trans : forall a b c, Known a -> Known b -> Known c ->
    keying.Same a b -> keying.Same b c -> keying.Same a c
  hash_eq : forall a b, Known a -> Known b -> keying.Same a b ->
    (keying.hash a).eval = (keying.hash b).eval

/-- Two keys that are not the same, whichever of them is asked about. -/
def Unlike (keying : Keying α κ) (a b : κ) : Prop :=
  keying.Differ a b ∧ keying.Differ b a

theorem Unlike.symm {keying : Keying α κ} {a b : κ} (h : keying.Unlike a b) :
    keying.Unlike b a :=
  ⟨h.2, h.1⟩

instance (keying : Keying α κ) :
    Std.Symm fun d e : κ × ν => keying.Unlike d.1 e.1 :=
  ⟨fun _ _ h => h.symm⟩

theorem Lawful.differ_symm {keying : Keying α κ} {Known : κ -> Prop}
    (hlawful : keying.Lawful Known) {a b : κ} (ha : Known a) (hb : Known b)
    (hdiffer : keying.Differ a b) :
    keying.Differ b a := by
  rcases hlawful.answers b a hb ha with hsame | hdiffer'
  · exact (hdiffer.not_same (hlawful.symm b a hb ha hsame)).elim
  · exact hdiffer'

theorem Lawful.unlike_of_apart {keying : Keying α κ} {Known : κ -> Prop}
    (hlawful : keying.Lawful Known) {a b : κ} (ha : Known a) (hb : Known b)
    (hapart : keying.Apart a b) :
    keying.Unlike a b := by
  rcases hapart with hdiffer | hdiffer
  · exact ⟨hdiffer, hlawful.differ_symm ha hb hdiffer⟩
  · exact ⟨hlawful.differ_symm hb ha hdiffer, hdiffer⟩

theorem Lawful.unlike_of_hash {keying : Keying α κ} {Known : κ -> Prop}
    (hlawful : keying.Lawful Known) {a b : κ} (ha : Known a) (hb : Known b)
    {hash hash' : Int64} (hplaced : keying.PlacedAt hash a) (hplaced' : keying.PlacedAt hash' b)
    (hne : hash ≠ hash') :
    keying.Unlike a b := by
  have hnot : ¬keying.Same a b := by
    intro hsame
    apply hne
    have heq : (keying.nodeKey a).eval = (keying.nodeKey b).eval := by
      rw [nodeKey_eval, nodeKey_eval, hlawful.hash_eq a b ha hb hsame]
    exact Except.ok.inj (hplaced.symm.trans (heq.trans hplaced'))
  have hdiffer : keying.Differ a b := (hlawful.answers a b ha hb).resolve_left hnot
  exact ⟨hdiffer, hlawful.differ_symm ha hb hdiffer⟩

theorem Same.placedAt {keying : Keying α κ} {Known : κ -> Prop}
    (hlawful : keying.Lawful Known) {a b : κ} (ha : Known a) (hb : Known b)
    (hsame : keying.Same a b) {hash : Int64} (hplaced : keying.PlacedAt hash b) :
    keying.PlacedAt hash a := by
  unfold PlacedAt
  rw [nodeKey_eval, hlawful.hash_eq a b ha hb hsame, ← nodeKey_eval]
  exact hplaced

theorem Unlike.not_both_same {keying : Keying α κ} {a b sought : κ} (hunlike : keying.Unlike a b)
    {Known : κ -> Prop} (hlawful : keying.Lawful Known) (ha : Known a) (hb : Known b)
    (hsought : Known sought) (haSame : keying.Same a sought) (hbSame : keying.Same b sought) :
    False := by
  have hback := hlawful.symm b sought hb hsought hbSame
  have hsame := hlawful.trans a sought b ha hsought hb haSame hback
  exact hunlike.1.not_same hsame

theorem Lawful.eq_of_same {keying : Keying α κ} {Known : κ -> Prop}
    (hlawful : keying.Lawful Known) {entries : List (κ × ν)}
    (hunlike : entries.Pairwise fun d e => keying.Unlike d.1 e.1)
    (hknown : forall entry, entry ∈ entries -> Known entry.1) {sought : κ}
    (hsought : Known sought) {d e : κ × ν} (hd : d ∈ entries) (he : e ∈ entries)
    (hdSame : keying.Same d.1 sought) (heSame : keying.Same e.1 sought) :
    d = e := by
  by_contra hne
  have hapart := hunlike.forall hd he hne
  exact hapart.not_both_same hlawful (hknown d hd) (hknown e he) hsought hdSame heSame

end Keying

namespace Dictionary

variable {α κ ν : Type}

def KeysKnown (m : Dictionary κ ν) (Known : κ -> Prop) : Prop :=
  forall entry, entry ∈ m.toList -> Known entry.1

theorem Sound.keysHashable {keying : Keying α κ} {m : Dictionary κ ν} (h : m.Sound keying) :
    m.KeysKnown keying.Hashable := by
  intro entry hentry
  rcases h.exists_placed hentry with ⟨hash, hplaced, _hcandidate⟩
  exact hplaced.hashable

theorem Sound.unlike {keying : Keying α κ} {m : Dictionary κ ν} (h : m.Sound keying)
    {Known : κ -> Prop} (hlawful : keying.Lawful Known) (hknown : m.KeysKnown Known) :
    m.toList.Pairwise fun d e => keying.Unlike d.1 e.1 := by
  have hmem : forall node, node ∈ m.index.toList -> forall entry, entry ∈ node.2.entries ->
      keying.PlacedAt node.1 entry.1 ∧ Known entry.1 := by
    intro node hnode entry hentry
    exact ⟨(h.buckets node hnode).placed_of_mem hentry,
      hknown entry (List.mem_flatMap.mpr ⟨node, hnode, hentry⟩)⟩
  unfold toList
  rw [List.pairwise_flatMap]
  constructor
  · intro node hnode
    apply (h.buckets node hnode).distinct.imp_of_mem
    intro d e hd he hapart
    exact hlawful.unlike_of_apart (hmem node hnode d hd).2 (hmem node hnode e he).2 hapart
  · have hkeys := Index.nodup_keys h.index
    rw [List.nodup_iff_pairwise_ne, List.pairwise_map] at hkeys
    apply hkeys.imp_of_mem
    intro node node' hnode hnode' hne d hd e he
    exact hlawful.unlike_of_hash (hmem node hnode d hd).2 (hmem node' hnode' e he).2
      (hmem node hnode d hd).1 (hmem node' hnode' e he).1 hne

/-- A search under a lawful keying finds the live entry with the key sought, if there is one. -/
inductive Located (keying : Keying α κ) (m : Dictionary κ ν) (hash : Int64) (key : κ) :
    Except Error (Option Nat) -> Prop where
  | absent :
      (forall entry, entry ∈ m.toList -> keying.Differ entry.1 key) ->
      Located keying m hash key (.ok none)
  | present {i : Nat} {entry : κ × ν} :
      (m.candidates hash)[i]? = some entry -> entry ∈ m.toList -> keying.Same entry.1 key ->
      Located keying m hash key (.ok (some i))

theorem Sound.located {keying : Keying α κ} {m : Dictionary κ ν} (h : m.Sound keying)
    {Known : κ -> Prop} (hlawful : keying.Lawful Known) (hknown : m.KeysKnown Known)
    {hash : Int64} {key : κ} (hkey : Known key) (hplaced : keying.PlacedAt hash key)
    {result : Except Error (Option Nat)}
    (hfinds : keying.Finds key (m.candidates hash) result) :
    m.Located keying hash key result := by
  cases result with
  | error error =>
      rcases hfinds.refusal with ⟨i, entry, hentry, herror, _hmisses⟩
      have hmem := mem_toList_of_mem_candidates (List.mem_of_getElem? hentry)
      rcases hlawful.answers entry.1 key (hknown entry hmem) hkey with hsame | hdiffer
      · cases herror.symm.trans hsame
      · cases herror.symm.trans hdiffer
  | ok found =>
      cases found with
      | none =>
          have hmisses := hfinds.misses
          apply Located.absent
          intro entry hentry
          apply (hlawful.answers entry.1 key (hknown entry hentry) hkey).resolve_left
          intro hsame
          have hcandidate := h.mem_candidates hentry
            (hsame.placedAt hlawful (hknown entry hentry) hkey hplaced)
          exact (hmisses entry hcandidate).not_same hsame
      | some i =>
          rcases hfinds.entry with ⟨entry, hentry, hsame, _hmisses⟩
          exact Located.present hentry
            (mem_toList_of_mem_candidates (List.mem_of_getElem? hentry)) hsame

/-- Looking up answers from the one live entry with the key sought, or that there is none. -/
theorem Sound.lookup?_lawful {keying : Keying α κ} {m : Dictionary κ ν} (h : m.Sound keying)
    {Known : κ -> Prop} (hlawful : keying.Lawful Known) (hknown : m.KeysKnown Known)
    {hash : Int64} {key : κ} (hkey : Known key) (hplaced : keying.PlacedAt hash key) :
    ((forall entry, entry ∈ m.toList -> keying.Differ entry.1 key) ∧
        (m.lookup? keying key).eval = .ok none) ∨
      exists entry, entry ∈ m.toList ∧ keying.Same entry.1 key ∧
        (m.lookup? keying key).eval = .ok (some entry.2) := by
  rcases lookup?_eval hplaced m with ⟨result, hfinds, hlookup⟩
  rw [hlookup]
  cases h.located hlawful hknown hkey hplaced hfinds with
  | absent hdiffer =>
      exact Or.inl ⟨hdiffer, rfl⟩
  | present hentry hmem hsame =>
      exact Or.inr ⟨_, hmem, hsame, by simp [Except.map, hentry]⟩

end Dictionary

end ValueStore
