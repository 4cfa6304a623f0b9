import ValueStore.Json.Writer
import ValueStore.Proofs.Format

/-!
# JSON as a format

JSON writes everything but what is no text and should be a key. It needs no cells for that.
-/

namespace ValueStore

namespace Json

variable {α : Type}

theorem writesLists_format :
    (format : Format α Role String _ _).WritesLists (· = .value) fun _ _ => True where
  start := by
    rintro place n rfl
    exact ⟨[], rfl, trivial⟩
  element := by
    intro n written _hwritten
    exact ⟨.value, (· :: written), rfl, fun _ => trivial,
      fun write => Action.eval_bind_pure (write .value) _⟩
  finish := fun written _ => ⟨array written.reverse, rfl⟩

theorem writesMaps_format :
    (format : Format α Role String _ _).WritesMaps (· = .key) (· = .value) fun _ _ => True where
  start := by
    rintro place n rfl
    exact ⟨[], rfl, trivial⟩
  entry := by
    intro n written _hwritten
    refine ⟨.key, .value, fun k v => (k, v) :: written, rfl, rfl, fun _ _ => trivial, ?_⟩
    intro writeKey writeValue
    simp only [format, Action.eval_bind, Action.eval_pure]
    rfl
  finish := fun written _ => ⟨object written.reverse, rfl⟩

theorem textKeyed_format :
    (format : Format α Role String _ _).TextKeyed (· = .key) (· = .value) listAsKey
      floatAsKey where
  integer := fun place n _ => ⟨place.scalar (integer n), rfl⟩
  string := fun _ s _ => ⟨string s, rfl⟩
  boolean := fun place b _ => ⟨place.scalar (boolean b), rfl⟩
  float := by
    rintro place x (⟨rfl, hfinite⟩ | rfl)
    · refine ⟨Role.key.scalar (float x), ?_⟩
      show (if x.isFinite then _ else _ : Action α String).eval = _
      rw [if_pos hfinite]
      rfl
    · exact ⟨float x, rfl⟩
  listKey := by
    rintro place declared rfl
    rfl
  floatKey := by
    rintro place x rfl hfinite
    show (if x.isFinite then _ else _ : Action α String).eval = _
    rw [hfinite]
    rfl
  lists := ⟨_, writesLists_format⟩
  maps := ⟨_, writesMaps_format⟩

theorem plain_format {Known : Sequence α -> Prop} :
    (format : Format α Role String _ _).Plain Known where
  integer := fun _ _ => Action.plain_done _
  float := by
    intro place x
    cases place with
    | value =>
        exact Action.plain_done _
    | key =>
        show (if x.isFinite then _ else _ : Action α String).Plain Known
        split
        · exact Action.plain_done _
        · exact Action.plain_fail _
  string := fun _ _ => Action.plain_done _
  boolean := fun _ _ => Action.plain_done _
  startList := by
    intro place declared
    cases place with
    | value =>
        exact Action.plain_done _
    | key =>
        exact Action.plain_fail _
  element := fun _ _ hwrite => (hwrite .value).bind fun _ _ => Action.plain_done _
  finishList := fun _ => Action.plain_done _
  startMap := by
    intro place declared
    cases place with
    | value =>
        exact Action.plain_done _
    | key =>
        exact Action.plain_fail _
  entry := fun _ _ _ hkey hvalue =>
    (hkey .key).bind fun _ _ => (hvalue .value).bind fun _ _ => Action.plain_done _
  finishMap := fun _ => Action.plain_done _

end Json

end ValueStore
