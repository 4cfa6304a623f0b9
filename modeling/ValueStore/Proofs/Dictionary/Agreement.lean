import ValueStore.Proofs.Dictionary.Lawful

/-!
# Agreement of dictionaries

Under a lawful keying two sound dictionaries agree exactly if they have equally many
live entries and each entry of one has a partner in the other. Nothing else about the
two matters: not the shape of their trees, not the order in which entries arrived, and
not what was deleted before.

Comparing asks about live entries of the two dictionaries only, so keyings and
comparisons that mean the same on those can be exchanged.
-/

namespace ValueStore

variable {α κ ν : Type}

/-! ## Exchanging the keying -/

def Keying.LikeOn (keying keying' : Keying α κ) (sought : κ) (entries : List (κ × ν)) : Prop :=
  forall entry, entry ∈ entries ->
    (keying.same entry.1 sought).eval = (keying'.same entry.1 sought).eval

namespace Bucket

theorem findOverflow_congr {keying keying' : Keying α κ} {sought : κ} {entries : List (κ × ν)}
    (hlike : keying.LikeOn keying' sought entries) (index : Nat) :
    (findOverflow keying sought index entries).eval =
      (findOverflow keying' sought index entries).eval := by
  induction entries generalizing index with
  | nil =>
      rfl
  | cons entry rest ih =>
      rcases List.forall_mem_cons.mp hlike with ⟨hentry, hrest⟩
      unfold findOverflow
      apply Action.eval_bind_congr hentry
      intro answer _hanswer
      cases answer with
      | true =>
          rfl
      | false =>
          exact ih hrest (index + 1)

theorem find?_congr {keying keying' : Keying α κ} {sought : κ} {b : Bucket κ ν}
    (hlike : keying.LikeOn keying' sought b.entries) :
    (b.find? keying sought).eval = (b.find? keying' sought).eval := by
  unfold find?
  cases hdeleted : b.deleted with
  | true =>
      rfl
  | false =>
      rw [entries_of_live hdeleted] at hlike
      rcases List.forall_mem_cons.mp hlike with ⟨hentry, hrest⟩
      rw [if_neg Bool.false_ne_true, if_neg Bool.false_ne_true]
      apply Action.eval_bind_congr hentry
      intro answer _hanswer
      cases answer with
      | true =>
          rfl
      | false =>
          exact findOverflow_congr hrest 0

end Bucket

namespace Dictionary

theorem lookup?_congr {keying keying' : Keying α κ} {m : Dictionary κ ν} {key : κ}
    (hhash : (keying.hash key).eval = (keying'.hash key).eval)
    (hlike : keying.LikeOn keying' key m.toList) :
    (m.lookup? keying key).eval = (m.lookup? keying' key).eval := by
  unfold lookup?
  apply Action.eval_bind_congr
  · rw [Keying.nodeKey_eval, Keying.nodeKey_eval, hhash]
  · intro hash _hplaced
    cases hget : m.index.get? hash with
    | none =>
        rfl
    | some b =>
        refine Action.eval_bind_congr (Bucket.find?_congr ?_) (fun _ _ => rfl)
        intro entry hentry
        have hnode := Index.mem_toList_of_get? hget
        exact hlike entry (List.mem_flatMap.mpr ⟨(hash, b), hnode, hentry⟩)

theorem mem_of_lookup?_eq_some {keying : Keying α κ} {m : Dictionary κ ν} {key : κ} {value : ν}
    (hlookup : (m.lookup? keying key).eval = .ok (some value)) :
    exists entry, entry ∈ m.toList ∧ entry.2 = value := by
  cases hhash : (keying.hash key).eval with
  | error error =>
      rw [lookup?_eval_of_unhashable hhash] at hlookup
      cases hlookup
  | ok word =>
      rcases lookup?_eval (Keying.placedAt_of_hash hhash) m with ⟨result, hfinds, heval⟩
      rw [heval] at hlookup
      cases result with
      | error error =>
          cases hlookup
      | ok found =>
          cases found with
          | none =>
              cases hlookup
          | some i =>
              rcases hfinds.entry with ⟨entry, hentry, _hsame, _hmisses⟩
              simp only [Except.map, Option.bind_some, hentry, Option.map_some] at hlookup
              cases hlookup
              exact ⟨entry, mem_toList_of_mem_candidates (List.mem_of_getElem? hentry), rfl⟩

structure AgreeAlike (left right : Dictionary κ ν) (keying keying' : Keying α κ)
    (f g : ν -> ν -> Action α Bool) : Prop where
  hash : forall key, (keying.hash key).eval = (keying'.hash key).eval
  keys : forall d, d ∈ left.toList -> forall e, e ∈ right.toList ->
    (keying.same e.1 d.1).eval = (keying'.same e.1 d.1).eval
  values : forall d, d ∈ left.toList -> forall e, e ∈ right.toList ->
    (f d.2 e.2).eval = (g d.2 e.2).eval

theorem AgreeAlike.holdsAll {left right : Dictionary κ ν} {keying keying' : Keying α κ}
    {f g : ν -> ν -> Action α Bool} (h : AgreeAlike left right keying keying' f g) :
    (right.holdsAll keying f left.toList).eval =
      (right.holdsAll keying' g left.toList).eval := by
  apply Action.allM_congr
  intro d hd
  apply Action.eval_bind_congr (lookup?_congr (h.hash d.1) (h.keys d hd))
  intro found hfound
  cases found with
  | none =>
      rfl
  | some value =>
      rcases mem_of_lookup?_eq_some hfound with ⟨e, he, rfl⟩
      exact h.values d hd e he

theorem agree_congr {left right : Dictionary κ ν} {keying keying' : Keying α κ}
    {f g : ν -> ν -> Action α Bool} (h : AgreeAlike left right keying keying' f g)
    (hback : AgreeAlike right left keying keying' f g) :
    (left.agree keying f right).eval = (left.agree keying' g right).eval := by
  unfold agree
  by_cases hsize : left.size = right.size
  · rw [if_pos hsize, if_pos hsize]
    apply Action.eval_bind_congr h.holdsAll
    intro answer _hanswer
    cases answer with
    | true =>
        exact hback.holdsAll
    | false =>
        rfl
  · rw [if_neg hsize, if_neg hsize]

/-! ## Agreement entry by entry -/

def holds (keying : Keying α κ) (f : ν -> ν -> Action α Bool) (m : Dictionary κ ν)
    (entry : κ × ν) : Action α Bool := do
  match ← m.lookup? keying entry.1 with
  | none => return false
  | some value => f entry.2 value

/-- What comes of asking whether an entry is among the live entries of a dictionary. -/
inductive Verdict (keying : Keying α κ) (f : ν -> ν -> Action α Bool) (held : List (κ × ν))
    (d : κ × ν) : Except Error Bool -> Prop where
  | absent :
      (forall e, e ∈ held -> keying.Differ e.1 d.1) -> Verdict keying f held d (.ok false)
  | present {e : κ × ν} {outcome : Except Error Bool} :
      e ∈ held -> keying.Same e.1 d.1 -> (f d.2 e.2).eval = outcome ->
      Verdict keying f held d outcome

theorem Sound.holds_iff {keying : Keying α κ} {left right : Dictionary κ ν}
    (hleft : left.Sound keying) (hright : right.Sound keying) {Known : κ -> Prop}
    (hlawful : keying.Lawful Known) (hleftKnown : left.KeysKnown Known)
    (hrightKnown : right.KeysKnown Known) (f : ν -> ν -> Action α Bool) {d : κ × ν}
    (hd : d ∈ left.toList) {outcome : Except Error Bool} :
    (right.holds keying f d).eval = outcome ↔ Verdict keying f right.toList d outcome := by
  have hknown := hleftKnown d hd
  unfold holds
  rcases hleft.exists_placed hd with ⟨hash, hplaced, _hcandidate⟩
  rcases hright.lookup?_lawful hlawful hrightKnown hknown hplaced with
    ⟨hdiffer, hlookup⟩ | ⟨entry, hentry, hsame, hlookup⟩
  · rw [Action.eval_bind_of_ok hlookup]
    constructor
    · rintro rfl
      exact Verdict.absent hdiffer
    · intro hverdict
      cases hverdict with
      | absent _hdiffer =>
          rfl
      | present he hsame _hvalue =>
          exact ((hdiffer _ he).not_same hsame).elim
  · rw [Action.eval_bind_of_ok hlookup]
    constructor
    · intro hvalue
      exact Verdict.present hentry hsame hvalue
    · intro hverdict
      cases hverdict with
      | absent hdiffer =>
          exact ((hdiffer entry hentry).not_same hsame).elim
      | present he hsame' hvalue =>
          have hunlike := hright.unlike hlawful hrightKnown
          have heq := hlawful.eq_of_same hunlike hrightKnown hknown hentry he hsame hsame'
          rw [heq]
          exact hvalue

def Covers (keying : Keying α κ) (f : ν -> ν -> Action α Bool) (left right : Dictionary κ ν) :
    Prop :=
  forall d, d ∈ left.toList ->
    exists e, e ∈ right.toList ∧ keying.Same e.1 d.1 ∧ (f d.2 e.2).eval = .ok true

theorem verdict_true_iff {keying : Keying α κ} {f : ν -> ν -> Action α Bool}
    {held : List (κ × ν)} {d : κ × ν} :
    Verdict keying f held d (.ok true) ↔
      exists e, e ∈ held ∧ keying.Same e.1 d.1 ∧ (f d.2 e.2).eval = .ok true := by
  constructor
  · intro hverdict
    cases hverdict with
    | present he hsame hvalue =>
        exact ⟨_, he, hsame, hvalue⟩
  · intro hpartner
    rcases hpartner with ⟨e, he, hsame, hvalue⟩
    exact Verdict.present he hsame hvalue

theorem Sound.holdsAll_eq_true_iff {keying : Keying α κ} {right : Dictionary κ ν}
    (hright : right.Sound keying) {Known : κ -> Prop} (hlawful : keying.Lawful Known)
    (hrightKnown : right.KeysKnown Known) (f : ν -> ν -> Action α Bool)
    {left : Dictionary κ ν} (hleft : left.Sound keying) (hleftKnown : left.KeysKnown Known) :
    (right.holdsAll keying f left.toList).eval = .ok true ↔ Covers keying f left right := by
  unfold holdsAll
  rw [Action.allM_eq_true_iff]
  apply forall₂_congr
  intro d hd
  rw [← verdict_true_iff, ← hleft.holds_iff hright hlawful hleftKnown hrightKnown f hd]
  rfl

theorem Sound.agree_eq_true_iff {keying : Keying α κ} {left right : Dictionary κ ν}
    (hleft : left.Sound keying) (hright : right.Sound keying) {Known : κ -> Prop}
    (hlawful : keying.Lawful Known) (hleftKnown : left.KeysKnown Known)
    (hrightKnown : right.KeysKnown Known) (f : ν -> ν -> Action α Bool) :
    (left.agree keying f right).eval = .ok true ↔
      left.size = right.size ∧ Covers keying f left right ∧ Covers keying f right left := by
  have hforth := hright.holdsAll_eq_true_iff hlawful hrightKnown f hleft hleftKnown
  have hback := hleft.holdsAll_eq_true_iff hlawful hleftKnown f hright hrightKnown
  unfold agree
  by_cases hsize : left.size = right.size
  · rw [if_pos hsize, ← hforth, ← hback]
    cases hanswer : (right.holdsAll keying f left.toList).eval with
    | error error =>
        rw [Action.eval_bind_of_error hanswer]
        simp
    | ok answer =>
        rw [Action.eval_bind_of_ok hanswer]
        cases answer <;> simp [hsize]
  · rw [if_neg hsize]
    simp [hsize]

theorem Covers.trans {keying : Keying α κ} {Known : κ -> Prop} (hlawful : keying.Lawful Known)
    {f : ν -> ν -> Action α Bool} {a b c : Dictionary κ ν} (ha : a.KeysKnown Known)
    (hb : b.KeysKnown Known) (hc : c.KeysKnown Known)
    (hvalues : forall d, d ∈ a.toList -> forall e, e ∈ b.toList -> forall g, g ∈ c.toList ->
      (f d.2 e.2).eval = .ok true -> (f e.2 g.2).eval = .ok true -> (f d.2 g.2).eval = .ok true)
    (hab : Covers keying f a b) (hbc : Covers keying f b c) :
    Covers keying f a c := by
  intro d hd
  rcases hab d hd with ⟨e, he, hkey, hvalue⟩
  rcases hbc e he with ⟨g, hg, hkey', hvalue'⟩
  exact ⟨g, hg, hlawful.trans g.1 e.1 d.1 (hc g hg) (hb e he) (ha d hd) hkey' hkey,
    hvalues d hd e he g hg hvalue hvalue'⟩

theorem Sound.covers_self_iff {keying : Keying α κ} {m : Dictionary κ ν} (h : m.Sound keying)
    {Known : κ -> Prop} (hlawful : keying.Lawful Known) (hknown : m.KeysKnown Known)
    (f : ν -> ν -> Action α Bool) :
    Covers keying f m m ↔
      forall d, d ∈ m.toList -> keying.Same d.1 d.1 ∧ (f d.2 d.2).eval = .ok true := by
  have hunlike := h.unlike hlawful hknown
  constructor
  · intro hcovers d hd
    rcases hcovers d hd with ⟨e, he, hkey, hvalue⟩
    have hkey' := hlawful.symm e.1 d.1 (hknown e he) (hknown d hd) hkey
    have hself := hlawful.trans d.1 e.1 d.1 (hknown d hd) (hknown e he) (hknown d hd) hkey' hkey
    have heq := hlawful.eq_of_same hunlike hknown (hknown d hd) he hd hkey hself
    rw [heq] at hvalue
    exact ⟨hself, hvalue⟩
  · intro hall d hd
    exact ⟨d, hd, (hall d hd).1, (hall d hd).2⟩

theorem Sound.agree_symm {keying : Keying α κ} {left right : Dictionary κ ν}
    (hleft : left.Sound keying) (hright : right.Sound keying) {Known : κ -> Prop}
    (hlawful : keying.Lawful Known) (hleftKnown : left.KeysKnown Known)
    (hrightKnown : right.KeysKnown Known) {f : ν -> ν -> Action α Bool}
    (hagree : (left.agree keying f right).eval = .ok true) :
    (right.agree keying f left).eval = .ok true := by
  rw [hleft.agree_eq_true_iff hright hlawful hleftKnown hrightKnown] at hagree
  rw [hright.agree_eq_true_iff hleft hlawful hrightKnown hleftKnown]
  rcases hagree with ⟨hsize, hforth, hback⟩
  exact ⟨hsize.symm, hback, hforth⟩

def ValuesKnown (m : Dictionary κ ν) (Known : ν -> Prop) : Prop :=
  forall entry, entry ∈ m.toList -> Known entry.2

theorem Sound.agree_trans {keying : Keying α κ} {a b c : Dictionary κ ν}
    (ha : a.Sound keying) (hb : b.Sound keying) (hc : c.Sound keying) {Known : κ -> Prop}
    (hlawful : keying.Lawful Known) (haKnown : a.KeysKnown Known) (hbKnown : b.KeysKnown Known)
    (hcKnown : c.KeysKnown Known) {f : ν -> ν -> Action α Bool} {KnownValue : ν -> Prop}
    (haValues : a.ValuesKnown KnownValue) (hbValues : b.ValuesKnown KnownValue)
    (hcValues : c.ValuesKnown KnownValue)
    (htrans : forall x y z, KnownValue x -> KnownValue y -> KnownValue z ->
      (f x y).eval = .ok true -> (f y z).eval = .ok true -> (f x z).eval = .ok true)
    (hab : (a.agree keying f b).eval = .ok true) (hbc : (b.agree keying f c).eval = .ok true) :
    (a.agree keying f c).eval = .ok true := by
  rw [ha.agree_eq_true_iff hb hlawful haKnown hbKnown] at hab
  rw [hb.agree_eq_true_iff hc hlawful hbKnown hcKnown] at hbc
  rw [ha.agree_eq_true_iff hc hlawful haKnown hcKnown]
  rcases hab with ⟨habSize, habForth, habBack⟩
  rcases hbc with ⟨hbcSize, hbcForth, hbcBack⟩
  refine ⟨habSize.trans hbcSize, ?_, ?_⟩
  · refine Covers.trans hlawful haKnown hbKnown hcKnown ?_ habForth hbcForth
    intro d hd e he g hg
    exact htrans d.2 e.2 g.2 (haValues d hd) (hbValues e he) (hcValues g hg)
  · refine Covers.trans hlawful hcKnown hbKnown haKnown ?_ hbcBack habBack
    intro g hg e he d hd
    exact htrans g.2 e.2 d.2 (hcValues g hg) (hbValues e he) (haValues d hd)

theorem Sound.agree_self_iff {keying : Keying α κ} {m : Dictionary κ ν} (h : m.Sound keying)
    {Known : κ -> Prop} (hlawful : keying.Lawful Known) (hknown : m.KeysKnown Known)
    (f : ν -> ν -> Action α Bool) :
    (m.agree keying f m).eval = .ok true ↔
      forall d, d ∈ m.toList -> keying.Same d.1 d.1 ∧ (f d.2 d.2).eval = .ok true := by
  rw [h.agree_eq_true_iff h hlawful hknown hknown, h.covers_self_iff hlawful hknown]
  simp

end Dictionary

end ValueStore
