import ValueStore.Format
import ValueStore.Proofs.Dictionary.Cursor
import ValueStore.Proofs.Sequence.ListFormat

/-!
# What is known of a format

A format can be anything that is handed lists and maps piece by piece. What is supposed of
it here is what the formats have in common whose maps have text for keys. Told how many
elements are to come, it takes that many, writes each of them once, at a place where any
value can stand, and then ends the list. It does so with the entries of a map, whose keys
it writes at places of their own; there it refuses lists, and numbers that are not finite.
An element or an entry is refused if writing what is in it is, and for no other reason.
-/

namespace ValueStore

namespace Format

variable {α β κ ν π ω σ τ : Type}

/-- Lists of a known length are written, if their elements are. -/
structure WritesLists (format : Format α π ω σ τ) (AtValue : π -> Prop)
    (Awaits : Nat -> σ -> Prop) : Prop where
  start : forall place n, AtValue place ->
    exists begun, (format.startList place (some n)).eval = .ok begun ∧ Awaits n begun
  element : forall n state, Awaits (n + 1) state ->
    exists place add, AtValue place ∧ (forall text, Awaits n (add text)) ∧
      forall write, (format.element state write).eval = (write place).eval.map add
  finish : forall state, Awaits 0 state ->
    exists text, (format.finishList state).eval = .ok text

/-- Maps of a known size are written, if their entries are, each key before its value. -/
structure WritesMaps (format : Format α π ω σ τ) (AtKey AtValue : π -> Prop)
    (Awaits : Nat -> τ -> Prop) : Prop where
  start : forall place n, AtValue place ->
    exists begun, (format.startMap place (some n)).eval = .ok begun ∧ Awaits n begun
  entry : forall n state, Awaits (n + 1) state ->
    exists key value, exists add : ω -> ω -> τ, AtKey key ∧ AtValue value ∧
      (forall k v, Awaits n (add k v)) ∧
        forall writeKey writeValue, (format.entry state writeKey writeValue).eval = do
          let k ← (writeKey key).eval
          let v ← (writeValue value).eval
          return add k v
  finish : forall state, Awaits 0 state ->
    exists text, (format.finishMap state).eval = .ok text

/--
All scalars, lists and maps are written at places for values. At places for keys scalars are
written, but lists and numbers that are not finite are refused.
-/
structure TextKeyed (format : Format α π ω σ τ) (AtKey AtValue : π -> Prop)
    (listKey floatKey : Error) : Prop where
  integer : forall place n, AtKey place ∨ AtValue place ->
    exists text, (format.integer place n).eval = .ok text
  string : forall place s, AtKey place ∨ AtValue place ->
    exists text, (format.string place s).eval = .ok text
  boolean : forall place b, AtKey place ∨ AtValue place ->
    exists text, (format.boolean place b).eval = .ok text
  float : forall place x, (AtKey place ∧ x.isFinite = true) ∨ AtValue place ->
    exists text, (format.float place x).eval = .ok text
  listKey : forall place declared, AtKey place ->
    (format.startList place declared).eval = .error listKey
  floatKey : forall place x, AtKey place -> x.isFinite = false ->
    (format.float place x).eval = .error floatKey
  lists : exists Awaits, format.WritesLists AtValue Awaits
  maps : exists Awaits, format.WritesMaps AtKey AtValue Awaits

/-- What the format does by itself does not depend on what cells keep. -/
structure Plain (format : Format α π ω σ τ) (Known : Sequence α -> Prop) : Prop where
  integer : forall place n, (format.integer place n).Plain Known
  float : forall place x, (format.float place x).Plain Known
  string : forall place s, (format.string place s).Plain Known
  boolean : forall place b, (format.boolean place b).Plain Known
  startList : forall place declared, (format.startList place declared).Plain Known
  element : forall state write, (forall place, (write place).Plain Known) ->
    (format.element state write).Plain Known
  finishList : forall state, (format.finishList state).Plain Known
  startMap : forall place declared, (format.startMap place declared).Plain Known
  entry : forall state writeKey writeValue, (forall place, (writeKey place).Plain Known) ->
    (forall place, (writeValue place).Plain Known) ->
    (format.entry state writeKey writeValue).Plain Known
  finishMap : forall state, (format.finishMap state).Plain Known

section

variable {format : Format α π ω σ τ} {AtKey AtValue : π -> Prop} {place : π}

/-! ## Lists -/

section

variable {Awaits : Nat -> σ -> Prop} {write write' : α -> π -> Action α ω}

theorem WritesLists.element_answers (h : format.WritesLists AtValue Awaits) {x : α}
    (hx : forall place, AtValue place -> exists text, (write x place).eval = .ok text) {n : Nat}
    {state : σ} (hstate : Awaits (n + 1) state) :
    exists after, (format.element state (write x)).eval = .ok after ∧ Awaits n after := by
  rcases h.element n state hstate with ⟨place, add, hplace, hadd, heval⟩
  rcases hx place hplace with ⟨text, htext⟩
  refine ⟨add text, ?_, hadd text⟩
  rw [heval, htext]
  rfl

theorem WritesLists.answers (h : format.WritesLists AtValue Awaits) (hplace : AtValue place)
    {xs : List α} (hxs : forall x, x ∈ xs -> forall place, AtValue place ->
      exists text, (write x place).eval = .ok text) :
    exists text, ((format.list place write).write (some xs.length) xs).eval = .ok text :=
  Action.framed_of_answers (h.start place xs.length hplace)
    (fun _ _ x hx hstate => h.element_answers (hxs x hx) hstate) h.finish

theorem WritesLists.refused (h : format.WritesLists AtValue Awaits) (hplace : AtValue place)
    {before after : List α} {x : α} {error : Error}
    (hbefore : forall y, y ∈ before -> forall place, AtValue place ->
      exists text, (write y place).eval = .ok text)
    (hx : forall place, AtValue place -> (write x place).eval = .error error) :
    ((format.list place write).write (some (before ++ x :: after).length)
      (before ++ x :: after)).eval = .error error := by
  apply Action.framed_of_refused (h.start place _ hplace)
  · exact fun _ _ y hy hstate => h.element_answers (hbefore y hy) hstate
  · intro n state hstate
    rcases h.element n state hstate with ⟨place, add, hplace, _hadd, heval⟩
    rw [list, heval, hx place hplace]
    rfl

theorem WritesLists.congr (h : format.WritesLists AtValue Awaits) (hplace : AtValue place)
    {xs ys : List α} (heq : List.Forall₂ (fun x y => forall place, AtValue place ->
      (write x place).eval = (write' y place).eval) xs ys) :
    ((format.list place write).write (some xs.length) xs).eval =
      ((format.list place write').write (some ys.length) ys).eval := by
  rw [← heq.length_eq]
  apply Action.framed_congr (h.start place xs.length hplace)
  apply heq.imp
  intro x y hxy n state hstate
  rcases h.element n state hstate with ⟨place, add, hplace, hadd, heval⟩
  rw [list, list, heval, heval, hxy place hplace]
  refine ⟨rfl, ?_⟩
  intro after hafter
  cases hwritten : (write' y place).eval with
  | error error =>
      rw [hwritten] at hafter
      cases hafter
  | ok text =>
      rw [hwritten] at hafter
      cases hafter
      exact hadd text

end

/-! ## Maps -/

section

variable {Awaits : Nat -> τ -> Prop} {writeKey writeKey' : κ -> π -> Action α ω}
  {writeValue writeValue' : ν -> π -> Action α ω}

theorem WritesMaps.entry_answers (h : format.WritesMaps AtKey AtValue Awaits) {d : κ × ν}
    (hkey : forall place, AtKey place -> exists text, (writeKey d.1 place).eval = .ok text)
    (hvalue : forall place, AtValue place -> exists text, (writeValue d.2 place).eval = .ok text)
    {n : Nat} {state : τ} (hstate : Awaits (n + 1) state) :
    exists after, (format.entry state (writeKey d.1) (writeValue d.2)).eval = .ok after ∧
      Awaits n after := by
  rcases h.entry n state hstate with ⟨key, value, add, hatKey, hatValue, hadd, heval⟩
  rcases hkey key hatKey with ⟨k, hk⟩
  rcases hvalue value hatValue with ⟨v, hv⟩
  refine ⟨add k v, ?_, hadd k v⟩
  rw [heval, hk, hv]
  rfl

theorem WritesMaps.answers (h : format.WritesMaps AtKey AtValue Awaits) (hplace : AtValue place)
    {entries : List (κ × ν)}
    (hkeys : forall d, d ∈ entries -> forall place, AtKey place ->
      exists text, (writeKey d.1 place).eval = .ok text)
    (hvalues : forall d, d ∈ entries -> forall place, AtValue place ->
      exists text, (writeValue d.2 place).eval = .ok text) :
    exists text, ((format.map place writeKey writeValue).write (some entries.length)
      entries).eval = .ok text :=
  Action.framed_of_answers (h.start place entries.length hplace)
    (fun _ _ d hd hstate => h.entry_answers (hkeys d hd) (hvalues d hd) hstate) h.finish

theorem WritesMaps.refused (h : format.WritesMaps AtKey AtValue Awaits) (hplace : AtValue place)
    {before after : List (κ × ν)} {d : κ × ν} {error : Error}
    (hbefore : forall e, e ∈ before ->
      (forall place, AtKey place -> exists text, (writeKey e.1 place).eval = .ok text) ∧
        forall place, AtValue place -> exists text, (writeValue e.2 place).eval = .ok text)
    (hd : (forall place, AtKey place -> (writeKey d.1 place).eval = .error error) ∨
      (forall place, AtKey place -> exists text, (writeKey d.1 place).eval = .ok text) ∧
        forall place, AtValue place -> (writeValue d.2 place).eval = .error error) :
    ((format.map place writeKey writeValue).write (some (before ++ d :: after).length)
      (before ++ d :: after)).eval = .error error := by
  apply Action.framed_of_refused (h.start place _ hplace)
  · exact fun _ _ e he hstate => h.entry_answers (hbefore e he).1 (hbefore e he).2 hstate
  · intro n state hstate
    rcases h.entry n state hstate with ⟨key, value, add, hatKey, hatValue, _hadd, heval⟩
    rw [map, heval]
    rcases hd with hkey | ⟨hkey, hvalue⟩
    · rw [hkey key hatKey]
      rfl
    · rcases hkey key hatKey with ⟨k, hk⟩
      rw [hk, hvalue value hatValue]
      rfl

theorem WritesMaps.congr (h : format.WritesMaps AtKey AtValue Awaits) (hplace : AtValue place)
    {ds es : List (κ × ν)}
    (heq : List.Forall₂ (fun d e =>
      (forall place, AtKey place -> (writeKey d.1 place).eval = (writeKey' e.1 place).eval) ∧
        forall place, AtValue place ->
          (writeValue d.2 place).eval = (writeValue' e.2 place).eval) ds es) :
    ((format.map place writeKey writeValue).write (some ds.length) ds).eval =
      ((format.map place writeKey' writeValue').write (some es.length) es).eval := by
  rw [← heq.length_eq]
  apply Action.framed_congr (h.start place ds.length hplace)
  apply heq.imp
  intro d e hde n state hstate
  rcases h.entry n state hstate with ⟨key, value, add, hatKey, hatValue, hadd, heval⟩
  rw [map, map, heval, heval, hde.1 key hatKey, hde.2 value hatValue]
  refine ⟨rfl, ?_⟩
  intro after hafter
  cases hk : (writeKey' e.1 key).eval with
  | error error =>
      rw [hk] at hafter
      cases hafter
  | ok k =>
      cases hv : (writeValue' e.2 value).eval with
      | error error =>
          rw [hk, hv] at hafter
          cases hafter
      | ok v =>
          rw [hk, hv] at hafter
          cases hafter
          exact hadd k v

end

end

/-! ## What cells keep -/

theorem Plain.list {format : Format α π ω σ τ} {Known : Sequence α -> Prop}
    (h : format.Plain Known) {Given : α -> Prop} {write : α -> π -> Action α ω}
    (hwrite : forall x, Given x -> forall place, (write x place).Plain Known) (place : π) :
    (format.list place write).Plain Known Given where
  start := h.startList place
  element := fun state x hx => h.element state (write x) (hwrite x hx)
  finish := h.finishList

theorem Plain.map {format : Format α π ω σ τ} {Known : Sequence α -> Prop}
    (h : format.Plain Known) {writeKey : κ -> π -> Action α ω} {writeValue : ν -> π -> Action α ω}
    {m : Dictionary κ ν}
    (hkeys : forall d, d ∈ m.toList -> forall place, (writeKey d.1 place).Plain Known)
    (hvalues : forall d, d ∈ m.toList -> forall place, (writeValue d.2 place).Plain Known)
    (place : π) :
    (m.serialize (format.map place writeKey writeValue)).Plain Known := by
  unfold Dictionary.serialize
  rw [Dictionary.drain_cursor]
  apply (h.startMap place _).bind
  intro begun _hbegun
  have hwritten : (m.toList.foldlM (fun state d =>
      format.entry state (writeKey d.1) (writeValue d.2)) begun).Plain Known :=
    (Action.closed_plain Known).foldlM
      (fun state d hd => h.entry state _ _ (hkeys d hd) (hvalues d hd)) begun
  exact hwritten.bind fun written _hwritten => h.finishMap written

end Format

end ValueStore
