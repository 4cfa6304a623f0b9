import ValueStore.Proofs.Cells
import ValueStore.Proofs.Dictionary.Agreement
import ValueStore.Proofs.Dictionary.Ledger
import ValueStore.Proofs.Dictionary.Reachable

/-!
# Dictionaries and cells

A dictionary reads no sequence by itself; whatever is read is read by its keying. So if
hashing and comparing the keys involved do not depend on what the cells keep, neither
does any operation of the dictionary.
-/

namespace ValueStore

variable {α κ ν : Type}

structure Keying.Plain (keying : Keying α κ) (Known : Sequence α -> Prop)
    (KnownKey : κ -> Prop) : Prop where
  hash : forall key, KnownKey key -> (keying.hash key).Plain Known
  same : forall stored sought, KnownKey stored -> KnownKey sought ->
    (keying.same stored sought).Plain Known

theorem Keying.Plain.nodeKey {keying : Keying α κ} {Known : Sequence α -> Prop}
    {KnownKey : κ -> Prop} (h : keying.Plain Known KnownKey) {key : κ} (hkey : KnownKey key) :
    (keying.nodeKey key).Plain Known :=
  (h.hash key hkey).bind fun _ _ => Action.plain_done _

namespace Bucket

theorem plain_findOverflow {keying : Keying α κ} {Known : Sequence α -> Prop} {sought : κ}
    {entries : List (κ × ν)}
    (hsame : forall entry, entry ∈ entries -> (keying.same entry.1 sought).Plain Known)
    (index : Nat) :
    (findOverflow keying sought index entries).Plain Known := by
  induction entries generalizing index with
  | nil =>
      exact Action.plain_done none
  | cons entry rest ih =>
      rcases List.forall_mem_cons.mp hsame with ⟨hentry, hrest⟩
      unfold findOverflow
      apply hentry.bind
      intro answer _hanswer
      cases answer with
      | true =>
          exact Action.plain_done _
      | false =>
          exact ih hrest (index + 1)

theorem plain_find? {keying : Keying α κ} {Known : Sequence α -> Prop} {b : Bucket κ ν}
    {sought : κ}
    (hsame : forall entry, entry ∈ b.entries -> (keying.same entry.1 sought).Plain Known) :
    (b.find? keying sought).Plain Known := by
  unfold find?
  cases hdeleted : b.deleted with
  | true =>
      exact Action.plain_done none
  | false =>
      rw [entries_of_live hdeleted] at hsame
      rcases List.forall_mem_cons.mp hsame with ⟨hentry, hrest⟩
      rw [if_neg Bool.false_ne_true]
      apply hentry.bind
      intro answer _hanswer
      cases answer with
      | true =>
          exact Action.plain_done _
      | false =>
          exact plain_findOverflow hrest 0

end Bucket

namespace Dictionary

variable {keying : Keying α κ} {Known : Sequence α -> Prop} {KnownKey : κ -> Prop}
variable {m : Dictionary κ ν} {key : κ}

theorem plain_find? (hplain : keying.Plain Known KnownKey) (hm : m.KeysKnown KnownKey)
    (hkey : KnownKey key) {hash : Int64} {b : Bucket κ ν} (hget : m.index.get? hash = some b) :
    (b.find? keying key).Plain Known := by
  apply Bucket.plain_find?
  intro entry hentry
  have hnode := Index.mem_toList_of_get? hget
  exact hplain.same entry.1 key
    (hm entry (List.mem_flatMap.mpr ⟨(hash, b), hnode, hentry⟩)) hkey

theorem plain_lookup? (hplain : keying.Plain Known KnownKey) (hm : m.KeysKnown KnownKey)
    (hkey : KnownKey key) :
    (m.lookup? keying key).Plain Known := by
  unfold lookup?
  apply (hplain.nodeKey hkey).bind
  intro hash _hplaced
  cases hget : m.index.get? hash with
  | none =>
      exact Action.plain_done none
  | some b =>
      apply (plain_find? hplain hm hkey hget).bind
      intro found _hfound
      cases found with
      | none =>
          exact Action.plain_done none
      | some place =>
          exact Action.plain_done _

theorem plain_put (hplain : keying.Plain Known KnownKey) (hm : m.KeysKnown KnownKey)
    (hkey : KnownKey key) (value : ν) :
    (m.put keying key value).Plain Known := by
  unfold put
  apply (hplain.nodeKey hkey).bind
  intro hash _hplaced
  cases hget : m.index.get? hash with
  | none =>
      exact Action.plain_done _
  | some b =>
      apply (plain_find? hplain hm hkey hget).bind
      intro found _hfound
      cases found with
      | none =>
          exact Action.plain_done _
      | some place =>
          exact Action.plain_fail .duplicateKey

theorem plain_remove (hplain : keying.Plain Known KnownKey) (hm : m.KeysKnown KnownKey)
    (hkey : KnownKey key) :
    (m.remove keying key).Plain Known := by
  unfold remove
  apply (hplain.nodeKey hkey).bind
  intro hash _hplaced
  cases hget : m.index.get? hash with
  | none =>
      exact Action.plain_done _
  | some b =>
      apply (plain_find? hplain hm hkey hget).bind
      intro found _hfound
      cases found with
      | none =>
          exact Action.plain_done _
      | some place =>
          dsimp only
          rcases m.index.modify Bucket.handler hash place with ⟨index, answer⟩
          cases answer with
          | true =>
              exact Action.plain_done _
          | false =>
              exact Action.plain_done _

theorem plain_erase (hplain : keying.Plain Known KnownKey) (hm : m.KeysKnown KnownKey)
    (hkey : KnownKey key) :
    (m.erase keying key).Plain Known := by
  unfold erase
  apply (plain_remove hplain hm hkey).bind
  intro removal _hremoval
  cases removal.event with
  | none =>
      exact Action.plain_done _
  | some event =>
      exact (Action.plain_log event).bind fun _ _ => Action.plain_done _

/-! ## Comparing -/

theorem plain_holdsAll {left right : Dictionary κ ν} (hplain : keying.Plain Known KnownKey)
    (hleft : left.KeysKnown KnownKey) (hright : right.KeysKnown KnownKey)
    {f : ν -> ν -> Action α Bool}
    (hvalues : forall d, d ∈ left.toList -> forall e, e ∈ right.toList ->
      (f d.2 e.2).Plain Known) :
    (right.holdsAll keying f left.toList).Plain Known := by
  apply Action.plain_allM
  intro d hd
  apply (plain_lookup? hplain hright (hleft d hd)).bind
  intro found hfound
  cases found with
  | none =>
      exact Action.plain_done false
  | some value =>
      rcases mem_of_lookup?_eq_some hfound with ⟨e, he, rfl⟩
      exact hvalues d hd e he

theorem plain_agree {left right : Dictionary κ ν} (hplain : keying.Plain Known KnownKey)
    (hleft : left.KeysKnown KnownKey) (hright : right.KeysKnown KnownKey)
    {f : ν -> ν -> Action α Bool}
    (hvalues : forall d, d ∈ left.toList -> forall e, e ∈ right.toList ->
      (f d.2 e.2).Plain Known)
    (hvalues' : forall d, d ∈ right.toList -> forall e, e ∈ left.toList ->
      (f d.2 e.2).Plain Known) :
    (left.agree keying f right).Plain Known := by
  unfold agree
  by_cases hsize : left.size = right.size
  · rw [if_pos hsize]
    apply (plain_holdsAll hplain hleft hright hvalues).bind
    intro answer _hanswer
    cases answer with
    | true =>
        exact plain_holdsAll hplain hright hleft hvalues'
    | false =>
        exact Action.plain_done false
  · rw [if_neg hsize]
    exact Action.plain_done false

/-! ## Keys that stay known -/

theorem KeysKnown.put (hm : m.KeysKnown KnownKey) (hkey : KnownKey key) {value : ν}
    {larger : Dictionary κ ν} (hput : (m.put keying key value).eval = .ok larger) :
    larger.KeysKnown KnownKey := by
  intro entry hentry
  rcases List.mem_cons.mp ((toList_put hput).mem_iff.mp hentry) with rfl | hentry
  · exact hkey
  · exact hm entry hentry

theorem KeysKnown.putAll (hm : m.KeysKnown KnownKey) {entries : List (κ × ν)}
    (hentries : forall entry, entry ∈ entries -> KnownKey entry.1) {larger : Dictionary κ ν}
    (hputAll : (m.putAll keying entries).eval = .ok larger) :
    larger.KeysKnown KnownKey := by
  induction entries generalizing m with
  | nil =>
      cases hputAll
      exact hm
  | cons entry rest ih =>
      rcases List.forall_mem_cons.mp hentries with ⟨hentry, hrest⟩
      rcases Action.exists_of_eval_bind_eq_ok hputAll with ⟨next, hput, hnext⟩
      exact ih (hm.put hentry hput) hrest hnext

theorem Sound.keysKnown_erase (h : m.Sound keying) (hm : m.KeysKnown KnownKey) {found : Bool}
    {smaller : Dictionary κ ν} (herase : (m.erase keying key).eval = .ok (found, smaller)) :
    smaller.KeysKnown KnownKey := by
  rcases h.toList_erase herase with ⟨_hfound, rfl⟩ | ⟨_hfound, removed, _hsame, hperm⟩
  · exact hm
  · intro entry hentry
    exact hm entry (hperm.mem_iff.mpr (List.mem_cons_of_mem removed hentry))

theorem Sound.keysKnown_compact (h : m.Sound keying) (hm : m.KeysKnown KnownKey) :
    m.compact.KeysKnown KnownKey :=
  fun entry hentry => hm entry ((toList_compact h.index).mem_iff.mp hentry)

theorem Sound.answer (h : m.Sound keying) (hm : m.KeysKnown KnownKey) {request : Request κ ν}
    (hrequest : forall key, request.key? = some key -> KnownKey key) {reply : Reply ν}
    {after : Dictionary κ ν} (hanswer : (m.answer keying request).eval = .ok (reply, after)) :
    after.Sound keying ∧ after.KeysKnown KnownKey := by
  cases request with
  | put key value =>
      rcases Action.exists_of_eval_bind_eq_ok hanswer with ⟨larger, hput, hdone⟩
      cases hdone
      exact ⟨h.put hput, hm.put (hrequest key rfl) hput⟩
  | delete key =>
      rcases Action.exists_of_eval_bind_eq_ok hanswer with ⟨smaller, hdelete, hdone⟩
      cases hdone
      have herase := erase_of_delete_eq_ok hdelete
      exact ⟨h.erase herase, h.keysKnown_erase hm herase⟩
  | erase key =>
      rcases Action.exists_of_eval_bind_eq_ok hanswer with ⟨erased, herase, hdone⟩
      rcases erased with ⟨found, smaller⟩
      cases hdone
      exact ⟨h.erase herase, h.keysKnown_erase hm herase⟩
  | compact =>
      cases hanswer
      exact ⟨h.compact, h.keysKnown_compact hm⟩
  | clone =>
      cases hanswer
      exact ⟨h, hm⟩
  | size =>
      cases hanswer
      exact ⟨h, hm⟩
  | isEmpty =>
      cases hanswer
      exact ⟨h, hm⟩
  | _ =>
      rcases Action.exists_of_eval_bind_eq_ok hanswer with ⟨found, _hfound, hdone⟩
      cases hdone
      exact ⟨h, hm⟩

theorem Sound.serve (h : m.Sound keying) (hm : m.KeysKnown KnownKey) {request : Request κ ν}
    (hrequest : forall key, request.key? = some key -> KnownKey key) {reply : Reply ν}
    {after : Dictionary κ ν} (hserve : (m.serve keying request).eval = .ok (reply, after)) :
    after.Sound keying ∧ after.KeysKnown KnownKey := by
  unfold Dictionary.serve at hserve
  rw [Action.eval_recover] at hserve
  cases hanswer : (m.answer keying request).eval with
  | error error =>
      rw [hanswer] at hserve
      cases hserve
      exact ⟨h, hm⟩
  | ok answered =>
      rw [hanswer] at hserve
      cases hserve
      exact h.answer hm hrequest hanswer

/-! ## Runs of requests -/

theorem plain_answer (hplain : keying.Plain Known KnownKey) (hm : m.KeysKnown KnownKey)
    {request : Request κ ν} (hrequest : forall key, request.key? = some key -> KnownKey key) :
    (m.answer keying request).Plain Known := by
  have hlookup : forall key, request.key? = some key -> (m.lookup? keying key).Plain Known :=
    fun key hkey => plain_lookup? hplain hm (hrequest key hkey)
  cases request with
  | put key value =>
      exact (plain_put hplain hm (hrequest key rfl) value).bind fun _ _ => Action.plain_done _
  | delete key =>
      refine Action.Plain.bind ?_ fun _ _ => Action.plain_done _
      apply (plain_erase hplain hm (hrequest key rfl)).bind
      intro erased _herased
      rcases erased with ⟨found, smaller⟩
      cases found with
      | true =>
          exact Action.plain_done _
      | false =>
          exact Action.plain_fail _
  | erase key =>
      exact (plain_erase hplain hm (hrequest key rfl)).bind fun _ _ => Action.plain_done _
  | compact =>
      exact Action.plain_done _
  | clone =>
      exact Action.plain_done _
  | get key =>
      refine Action.Plain.bind ?_ fun _ _ => Action.plain_done _
      apply (hlookup key rfl).bind
      intro found _hfound
      cases found with
      | none =>
          exact Action.plain_fail _
      | some value =>
          exact Action.plain_done _
  | getD key fallback =>
      refine Action.Plain.bind ?_ fun _ _ => Action.plain_done _
      exact (hlookup key rfl).bind fun _ _ => Action.plain_done _
  | getWithFlag key =>
      exact (hlookup key rfl).bind fun _ _ => Action.plain_done _
  | contains key =>
      refine Action.Plain.bind ?_ fun _ _ => Action.plain_done _
      exact (hlookup key rfl).bind fun _ _ => Action.plain_done _
  | size =>
      exact Action.plain_done _
  | isEmpty =>
      exact Action.plain_done _

theorem plain_serveAll (hplain : keying.Plain Known KnownKey) (h : m.Sound keying)
    (hm : m.KeysKnown KnownKey) {requests : List (Request κ ν)}
    (hrequests : forall key, key ∈ requests.filterMap Request.key? -> KnownKey key) :
    (m.serveAll keying requests).Plain Known := by
  induction requests generalizing m with
  | nil =>
      exact Action.plain_done _
  | cons request rest ih =>
      have hrequest : forall key, request.key? = some key -> KnownKey key :=
        fun key hkey => hrequests key (List.mem_filterMap.mpr ⟨request, List.mem_cons_self, hkey⟩)
      have hrest : forall key, key ∈ rest.filterMap Request.key? -> KnownKey key := by
        intro key hkey
        rcases List.mem_filterMap.mp hkey with ⟨later, hlater, hkey⟩
        exact hrequests key (List.mem_filterMap.mpr ⟨later, List.mem_cons_of_mem _ hlater, hkey⟩)
      unfold serveAll
      refine Action.Plain.bind ?_ ?_
      · exact (plain_answer hplain hm hrequest).recover fun _ _ => Action.plain_done _
      · intro served hserved
        rcases served with ⟨reply, after⟩
        rcases h.serve hm hrequest hserved with ⟨hsound, hknown⟩
        exact (ih hsound hknown hrest).bind fun _ _ => Action.plain_done _

theorem plain_putAll (hplain : keying.Plain Known KnownKey) (hm : m.KeysKnown KnownKey)
    {entries : List (κ × ν)} (hentries : forall entry, entry ∈ entries -> KnownKey entry.1) :
    (m.putAll keying entries).Plain Known := by
  induction entries generalizing m with
  | nil =>
      exact Action.plain_done _
  | cons entry rest ih =>
      rcases List.forall_mem_cons.mp hentries with ⟨hentry, hrest⟩
      apply (plain_put hplain hm hentry entry.2).bind
      intro larger hlarger
      exact ih (hm.put hentry hlarger) hrest

end Dictionary

theorem Origin.plain_serveAll {keying : Keying α κ} {Known : Sequence α -> Prop}
    {origin : Origin κ ν} {requests : List (Request κ ν)}
    (hplain : keying.Plain Known fun key =>
      key ∈ origin.keys ++ requests.filterMap Request.key?) :
    (origin.serveAll keying requests).Plain Known := by
  unfold serveAll
  cases origin with
  | withPolicy policy =>
      apply Dictionary.plain_serveAll hplain (Dictionary.sound_withPolicy keying policy)
      · exact List.forall_mem_nil _
      · exact fun key hkey => List.mem_append_right _ hkey
  | ofList entries =>
      have hempty : (Dictionary.empty : Dictionary κ ν).KeysKnown fun key =>
          key ∈ (ofList entries).keys ++ requests.filterMap Request.key? :=
        List.forall_mem_nil _
      have hentries : forall entry, entry ∈ entries ->
          entry.1 ∈ (ofList entries).keys ++ requests.filterMap Request.key? :=
        fun entry hentry => List.mem_append_left _ (List.mem_map_of_mem hentry)
      apply (Dictionary.plain_putAll hplain hempty hentries).bind
      intro m hm
      have hreachable : m.Reachable keying :=
        Dictionary.Reachable.putAll (Dictionary.Reachable.withPolicy .standard) hm
      apply Dictionary.plain_serveAll hplain hreachable.sound (hempty.putAll hentries hm)
      exact fun key hkey => List.mem_append_right _ hkey

end ValueStore
