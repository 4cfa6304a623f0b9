import ValueStore.Proofs.Always
import ValueStore.Proofs.Dictionary.Ledger
import ValueStore.Proofs.Dictionary.Soundness

/-!
# What a dictionary notes

Only a deletion that takes an entry out can note an event, and then it is the one the
policy led to. This holds whatever the keying answers, and whatever the sequences answer
that the keying reads. A keying may note events of its own while it hashes and compares;
a quiet one does not, and then the log holds the events of the dictionary and no others.
-/

namespace ValueStore

variable {α β γ κ ν : Type}

namespace Keying

structure Quiet (keying : Keying α κ) : Prop where
  hash : forall key, (keying.hash key).Quiet
  same : forall stored sought, (keying.same stored sought).Quiet

theorem quiet_ofBytes [DecidableEq κ] (bytes : κ -> List UInt8) :
    (ofBytes bytes : Keying α κ).Quiet where
  hash := fun _ => Action.quiet_done _
  same := fun _ _ => Action.quiet_done _

/-- All the events noted are the ones told, but for what the keying may have noted by itself. -/
structure Amid (keying : Keying α κ) (own noted : List Event) : Prop where
  sublist : own.Sublist noted
  exact : keying.Quiet -> noted = own

theorem amid_self (keying : Keying α κ) (own : List Event) :
    keying.Amid own own :=
  ⟨List.Sublist.refl _, fun _ => rfl⟩

theorem Amid.append {keying : Keying α κ} {own own' noted noted' : List Event}
    (h : keying.Amid own noted) (h' : keying.Amid own' noted') :
    keying.Amid (own ++ own') (noted ++ noted') where
  sublist := h.sublist.append h'.sublist
  exact := fun hquiet => by rw [h.exact hquiet, h'.exact hquiet]

/--
Whatever the sequences read answer, the action ends as told, with events about tombstones as told
amid those of the keying.
-/
def Ends (keying : Keying α κ) (x : Action α β) (P : List Event -> Except Error β -> Prop) :
    Prop :=
  x.Always fun events outcome =>
    exists own, keying.Amid own (events.filter Event.isMaintenance) ∧ P own outcome

variable {keying : Keying α κ}

theorem ends_done {answer : β} {P : List Event -> Except Error β -> Prop}
    (hP : P [] (.ok answer)) :
    keying.Ends (.done answer) P :=
  ⟨[], keying.amid_self [], hP⟩

theorem ends_fail {error : Error} {P : List Event -> Except Error β -> Prop}
    (hP : P [] (.error error)) :
    keying.Ends (.fail error) P :=
  ⟨[], keying.amid_self [], hP⟩

theorem ends_note {event : Event} {answer : β} {P : List Event -> Except Error β -> Prop}
    (hevent : event.isMaintenance = true) (hP : P [event] (.ok answer)) :
    keying.Ends (.note event (.done answer)) P := by
  refine ⟨[event], ?_, hP⟩
  rw [List.filter_cons_of_pos hevent]
  exact keying.amid_self [event]

theorem Ends.after {x : Action α β} {P : List Event -> Except Error β -> Prop}
    {before : List Event} {noted : List Event}
    (hbefore : keying.Amid before (noted.filter Event.isMaintenance))
    (hx : keying.Ends x fun own outcome => P (before ++ own) outcome) :
    x.Always fun events outcome =>
      exists own, keying.Amid own ((noted ++ events).filter Event.isMaintenance) ∧
        P own outcome := by
  apply Action.Always.mono hx
  intro events outcome hevents
  rcases hevents with ⟨own, hown, hP⟩
  refine ⟨before ++ own, ?_, hP⟩
  rw [List.filter_append]
  exact hbefore.append hown

theorem Ends.bind {x : Action α β} {f : β -> Action α γ}
    {P : List Event -> Except Error β -> Prop} {Q : List Event -> Except Error γ -> Prop}
    (hx : keying.Ends x P)
    (hf : forall own b, P own (.ok b) ->
      keying.Ends (f b) fun later outcome => Q (own ++ later) outcome)
    (herror : forall own error, P own (.error error) -> Q own (.error error)) :
    keying.Ends (x >>= f) Q := by
  apply Action.Always.bind hx
  · intro events b hevents
    rcases hevents with ⟨own, hown, hP⟩
    exact Ends.after hown (hf own b hP)
  · intro events error hevents
    rcases hevents with ⟨own, hown, hP⟩
    exact ⟨own, hown, herror own error hP⟩

theorem Ends.map {x : Action α β} {f : β -> γ}
    {P : List Event -> Except Error β -> Prop} {Q : List Event -> Except Error γ -> Prop}
    (hx : keying.Ends x P) (hok : forall own b, P own (.ok b) -> Q own (.ok (f b)))
    (herror : forall own error, P own (.error error) -> Q own (.error error)) :
    keying.Ends (x >>= fun b => pure (f b)) Q := by
  refine hx.bind (fun own b hP => ends_done ?_) herror
  rw [List.append_nil]
  exact hok own b hP

theorem Ends.recover {x : Action α β} {f : Error -> β}
    {P Q : List Event -> Except Error β -> Prop}
    (hx : keying.Ends x P) (hok : forall own b, P own (.ok b) -> Q own (.ok b))
    (herror : forall own error, P own (.error error) -> Q own (.ok (f error))) :
    keying.Ends (x.recover fun error => pure (f error)) Q := by
  apply Action.Always.recover hx
  · intro events b hevents
    rcases hevents with ⟨own, hown, hP⟩
    exact ⟨own, hown, hok own b hP⟩
  · intro events error hevents
    rcases hevents with ⟨own, hown, hP⟩
    apply Ends.after hown (x := pure (f error))
    apply ends_done
    rw [List.append_nil]
    exact herror own error hP

/-! ## Actions that only ask the keying -/

def Mute (keying : Keying α κ) (x : Action α β) : Prop :=
  keying.Ends x fun own _ => own = []

theorem mute_done (answer : β) :
    keying.Mute (.done answer) :=
  ends_done rfl

theorem mute_fail (error : Error) :
    keying.Mute (.fail error : Action α β) :=
  ends_fail rfl

theorem mute_of_quiet {x : Action α β} (hx : keying.Quiet -> x.Quiet) :
    keying.Mute x := by
  by_cases hquiet : keying.Quiet
  · apply Action.Always.mono (hx hquiet)
    intro events outcome hevents
    exact ⟨[], ⟨List.nil_sublist _, fun _ => hevents⟩, rfl⟩
  · apply Action.always_of_forall
    intro events outcome
    exact ⟨[], ⟨List.nil_sublist _, fun h => absurd h hquiet⟩, rfl⟩

theorem mute_hash (keying : Keying α κ) (key : κ) :
    keying.Mute (keying.hash key) :=
  mute_of_quiet fun hquiet => hquiet.hash key

theorem mute_same (keying : Keying α κ) (stored sought : κ) :
    keying.Mute (keying.same stored sought) :=
  mute_of_quiet fun hquiet => hquiet.same stored sought

theorem Mute.ends {x : Action α β} {f : β -> Action α γ}
    {Q : List Event -> Except Error γ -> Prop} (hx : keying.Mute x)
    (hf : forall b, keying.Ends (f b) Q) (herror : forall error, Q [] (.error error)) :
    keying.Ends (x >>= f) Q := by
  apply Ends.bind hx
  · intro own b hown
    rw [hown]
    exact hf b
  · intro own error hown
    rw [hown]
    exact herror error

theorem Mute.bind {x : Action α β} {f : β -> Action α γ} (hx : keying.Mute x)
    (hf : forall b, keying.Mute (f b)) :
    keying.Mute (x >>= f) :=
  hx.ends hf fun _ => rfl

theorem mute_nodeKey (keying : Keying α κ) (key : κ) :
    keying.Mute (keying.nodeKey key) :=
  (keying.mute_hash key).bind fun _ => mute_done _

end Keying

namespace Bucket

theorem mute_findOverflow (keying : Keying α κ) (sought : κ) (index : Nat)
    (entries : List (κ × ν)) :
    keying.Mute (findOverflow keying sought index entries) := by
  induction entries generalizing index with
  | nil =>
      exact Keying.mute_done none
  | cons entry rest ih =>
      unfold findOverflow
      apply (keying.mute_same entry.1 sought).bind
      intro answer
      cases answer with
      | true =>
          exact Keying.mute_done _
      | false =>
          exact ih (index + 1)

theorem mute_find? (keying : Keying α κ) (b : Bucket κ ν) (sought : κ) :
    keying.Mute (b.find? keying sought) := by
  unfold find?
  cases b.deleted with
  | true =>
      exact Keying.mute_done none
  | false =>
      apply (keying.mute_same b.key sought).bind
      intro answer
      cases answer with
      | true =>
          exact Keying.mute_done _
      | false =>
          exact mute_findOverflow keying sought 0 b.overflow

theorem lt_length_of_remove? {b left : Bucket κ ν} {i : Nat}
    (hremove : b.remove? (Place.ofNat i) = some left) :
    i < b.entries.length := by
  unfold remove? at hremove
  cases hdeleted : b.deleted with
  | true =>
      simp [hdeleted] at hremove
  | false =>
      rw [entries_of_live hdeleted, List.length_cons]
      cases i with
      | zero =>
          exact Nat.succ_pos _
      | succ i =>
          simp only [hdeleted, Place.ofNat, Bool.false_eq_true, if_false] at hremove
          split at hremove
          · rename_i hlt
            exact Nat.succ_lt_succ hlt
          · cases hremove

end Bucket

namespace Place

theorem exists_eq_ofNat (place : Place) :
    exists i, place = ofNat i := by
  cases place with
  | primary =>
      exact ⟨0, rfl⟩
  | overflow i =>
      exact ⟨i + 1, rfl⟩

end Place

namespace Request

def isCompact : Request κ ν -> Bool
  | compact => true
  | _ => false

def deletes : Request κ ν -> Reply ν -> Bool
  | delete _, .done => true
  | erase _, .flag found => found
  | _, _ => false

end Request

namespace Dictionary

theorem mute_lookup? (keying : Keying α κ) (m : Dictionary κ ν) (key : κ) :
    keying.Mute (m.lookup? keying key) := by
  unfold lookup?
  apply (keying.mute_nodeKey key).bind
  intro hash
  cases m.index.get? hash with
  | none =>
      exact Keying.mute_done none
  | some b =>
      apply (b.mute_find? keying key).bind
      intro found
      cases found with
      | none =>
          exact Keying.mute_done none
      | some place =>
          exact Keying.mute_done _

/-! ## Adding and deleting -/

theorem ends_put (keying : Keying α κ) (m : Dictionary κ ν) (key : κ) (value : ν) :
    keying.Ends (m.put keying key value) fun own outcome =>
      own = [] ∧ forall larger, outcome = .ok larger ->
        exists hash, larger = m.added hash key value := by
  unfold put
  refine (keying.mute_nodeKey key).ends ?_ fun _ => ⟨rfl, nofun⟩
  intro hash
  have hadded : keying.Ends (pure (m.added hash key value)) fun own outcome =>
      own = [] ∧ forall larger, outcome = .ok larger ->
        exists hash, larger = m.added hash key value := by
    apply Keying.ends_done
    refine ⟨rfl, ?_⟩
    intro larger hlarger
    exact ⟨hash, (Except.ok.inj hlarger).symm⟩
  cases m.index.get? hash with
  | none =>
      exact hadded
  | some b =>
      refine (b.mute_find? keying key).ends ?_ fun _ => ⟨rfl, nofun⟩
      intro found
      cases found with
      | none =>
          exact hadded
      | some place =>
          exact Keying.ends_fail ⟨rfl, nofun⟩

inductive Removes (m : Dictionary κ ν) : Removal κ ν -> Prop where
  | absent : Removes m (.absent m)
  | taken {hash : Int64} {i : Nat} {taken : Dictionary κ ν} :
      i < (m.candidates hash).length -> m.TakenAt hash i taken ->
      Removes m { found := true, map := taken.settle.1, event := taken.settle.2 }

theorem removes_removal (m : Dictionary κ ν) (hash : Int64) (found : Option Place) :
    m.Removes (m.removal hash found) := by
  cases found with
  | none =>
      exact Removes.absent
  | some place =>
      unfold removal
      dsimp only
      rcases hmodify : m.index.modify Bucket.handler hash place with ⟨index, answer⟩
      cases answer with
      | false =>
          exact Removes.absent
      | true =>
          rcases place.exists_eq_ofNat with ⟨i, rfl⟩
          rcases Index.toList_modify hmodify with ⟨b, left, hget, hremove, _hperm⟩
          have hi : i < (m.candidates hash).length := by
            rw [candidates_of_get? hget]
            exact Bucket.lt_length_of_remove? hremove
          have htaken : m.TakenAt hash i
              { m with index := index, size := m.size - 1, deletions := m.deletions + 1 } :=
            ⟨hmodify, rfl, rfl, rfl⟩
          exact Removes.taken hi htaken

theorem ends_remove (keying : Keying α κ) (m : Dictionary κ ν) (key : κ) :
    keying.Ends (m.remove keying key) fun own outcome =>
      own = [] ∧ forall removal, outcome = .ok removal -> m.Removes removal := by
  unfold remove
  refine (keying.mute_nodeKey key).ends ?_ fun _ => ⟨rfl, nofun⟩
  intro hash
  have hdone : forall removal, m.Removes removal ->
      keying.Ends (pure removal) fun own outcome =>
        own = [] ∧ forall removal, outcome = .ok removal -> m.Removes removal := by
    intro removal hremoves
    apply Keying.ends_done
    refine ⟨rfl, ?_⟩
    intro other hother
    rw [← Except.ok.inj hother]
    exact hremoves
  cases m.index.get? hash with
  | none =>
      exact hdone _ Removes.absent
  | some b =>
      refine (b.mute_find? keying key).ends ?_ fun _ => ⟨rfl, nofun⟩
      intro found
      have hremoves := m.removes_removal hash found
      unfold removal at hremoves
      cases found with
      | none =>
          exact hdone _ hremoves
      | some place =>
          revert hremoves
          dsimp only
          rcases m.index.modify Bucket.handler hash place with ⟨index, answer⟩
          cases answer with
          | true =>
              exact hdone _
          | false =>
              exact hdone _

inductive Erases (m : Dictionary κ ν) :
    List Event -> Except Error (Bool × Dictionary κ ν) -> Prop where
  | refused (error : Error) : Erases m [] (.error error)
  | absent : Erases m [] (.ok (false, m))
  | taken {hash : Int64} {i : Nat} {taken : Dictionary κ ν} :
      i < (m.candidates hash).length -> m.TakenAt hash i taken ->
      Erases m taken.settle.2.toList (.ok (true, taken.settle.1))

theorem isMaintenance_settle {m : Dictionary κ ν} {event : Event}
    (hevent : m.settle.2 = some event) :
    event.isMaintenance = true := by
  unfold settle at hevent
  split at hevent
  · cases hevent
  · split at hevent <;> cases hevent <;> rfl

theorem ends_erase (keying : Keying α κ) (m : Dictionary κ ν) (key : κ) :
    keying.Ends (m.erase keying key) m.Erases := by
  unfold erase
  apply (m.ends_remove keying key).bind
  · intro own removal hremove
    rcases hremove with ⟨rfl, hremoves⟩
    cases hremoves removal rfl with
    | absent =>
        exact Keying.ends_done Erases.absent
    | @taken hash i taken hi htaken =>
        have herases := Erases.taken hi htaken
        dsimp only
        cases hevent : taken.settle.2 with
        | none =>
            rw [hevent] at herases
            exact Keying.ends_done herases
        | some event =>
            rw [hevent] at herases
            exact Keying.ends_note (isMaintenance_settle hevent) herases
  · intro own error hremove
    rw [hremove.1]
    exact Erases.refused error

/-! ## One request -/

/-- What a request can come to: the reply, the dictionary after it and the events noted. -/
inductive Serves (m : Dictionary κ ν) :
    Request κ ν -> Reply ν -> Dictionary κ ν -> List Event -> Prop where
  | compacted : Serves m .compact .done m.compact []
  | deleted {request : Request κ ν} {reply : Reply ν} {hash : Int64} {i : Nat}
      {taken : Dictionary κ ν} :
      request.deletes reply = true -> i < (m.candidates hash).length ->
      m.TakenAt hash i taken -> Serves m request reply taken.settle.1 taken.settle.2.toList
  | added (hash : Int64) (key : κ) (value : ν) :
      Serves m (.put key value) .done (m.added hash key value) []
  | unchanged {request : Request κ ν} {reply : Reply ν} :
      request.isCompact = false -> request.deletes reply = false -> Serves m request reply m []

def Answers (m : Dictionary κ ν) (request : Request κ ν) (own : List Event) :
    Except Error (Reply ν × Dictionary κ ν) -> Prop
  | .ok (reply, after) => m.Serves request reply after own
  | .error _ => own = [] ∧ request.isCompact = false

theorem ends_answer_of_mute {β : Type} {keying : Keying α κ} {x : Action α β}
    (hx : keying.Mute x) (m : Dictionary κ ν) {request : Request κ ν} (f : β -> Reply ν)
    (hrequest : request.isCompact = false) (hf : forall b, request.deletes (f b) = false) :
    keying.Ends (x >>= fun b => pure (f b, m)) (m.Answers request) := by
  refine hx.ends ?_ fun _ => ⟨rfl, hrequest⟩
  exact fun b => Keying.ends_done (Serves.unchanged hrequest (hf b))

theorem mute_get (keying : Keying α κ) (m : Dictionary κ ν) (key : κ) :
    keying.Mute (m.get keying key) := by
  apply (m.mute_lookup? keying key).bind
  intro found
  cases found with
  | none =>
      exact Keying.mute_fail _
  | some value =>
      exact Keying.mute_done value

theorem mute_getD (keying : Keying α κ) (m : Dictionary κ ν) (key : κ) (fallback : ν) :
    keying.Mute (m.getD keying key fallback) :=
  (m.mute_lookup? keying key).bind fun _ => Keying.mute_done _

theorem mute_contains (keying : Keying α κ) (m : Dictionary κ ν) (key : κ) :
    keying.Mute (m.contains keying key) :=
  (m.mute_lookup? keying key).bind fun _ => Keying.mute_done _

theorem ends_delete (keying : Keying α κ) (m : Dictionary κ ν) (key : κ) :
    keying.Ends (m.delete keying key) fun own outcome =>
      match outcome with
      | .ok smaller => m.Serves (.delete key) .done smaller own
      | .error _ => own = [] := by
  apply (m.ends_erase keying key).bind
  · intro own erased herased
    cases herased with
    | absent =>
        exact Keying.ends_fail rfl
    | taken hi htaken =>
        apply Keying.ends_done
        rw [List.append_nil]
        exact Serves.deleted rfl hi htaken
  · intro own error herased
    cases herased
    rfl

theorem ends_answer (keying : Keying α κ) (m : Dictionary κ ν) (request : Request κ ν) :
    keying.Ends (m.answer keying request) (m.Answers request) := by
  cases request with
  | put key value =>
      apply (m.ends_put keying key value).map
      · intro own larger hput
        rcases hput with ⟨rfl, hadded⟩
        rcases hadded larger rfl with ⟨hash, rfl⟩
        exact Serves.added hash key value
      · exact fun own error hput => ⟨hput.1, rfl⟩
  | delete key =>
      exact (m.ends_delete keying key).map (fun _ _ h => h) fun _ _ h => ⟨h, rfl⟩
  | erase key =>
      apply (m.ends_erase keying key).map
      · intro own erased herased
        cases herased with
        | absent =>
            exact Serves.unchanged rfl rfl
        | taken hi htaken =>
            exact Serves.deleted rfl hi htaken
      · intro own error herased
        cases herased
        exact ⟨rfl, rfl⟩
  | compact =>
      exact Keying.ends_done Serves.compacted
  | get key =>
      exact m.ends_answer_of_mute (m.mute_get keying key) .value rfl fun _ => rfl
  | getD key fallback =>
      exact m.ends_answer_of_mute (m.mute_getD keying key fallback) .value rfl fun _ => rfl
  | getWithFlag key =>
      exact m.ends_answer_of_mute (m.mute_lookup? keying key)
        (fun value => .flagged value.isSome value) rfl fun _ => rfl
  | contains key =>
      exact m.ends_answer_of_mute (m.mute_contains keying key) .flag rfl fun _ => rfl
  | clone =>
      exact Keying.ends_done (Serves.unchanged rfl rfl)
  | size =>
      exact Keying.ends_done (Serves.unchanged rfl rfl)
  | isEmpty =>
      exact Keying.ends_done (Serves.unchanged rfl rfl)

theorem ends_serve (keying : Keying α κ) (m : Dictionary κ ν) (request : Request κ ν) :
    keying.Ends (m.serve keying request) fun own outcome =>
      exists reply after, outcome = .ok (reply, after) ∧ m.Serves request reply after own := by
  apply (m.ends_answer keying request).recover
  · intro own answered hserves
    exact ⟨answered.1, answered.2, rfl, hserves⟩
  · intro own error hrefused
    rcases hrefused with ⟨rfl, hrequest⟩
    refine ⟨.refused error, m, rfl, Serves.unchanged hrequest ?_⟩
    cases request <;> rfl

/-! ## Runs of requests -/

inductive ServesAll : Dictionary κ ν -> List (Request κ ν) -> List (Reply ν) -> Dictionary κ ν ->
    List Event -> Prop where
  | nil (m : Dictionary κ ν) : ServesAll m [] [] m []
  | cons {m next after : Dictionary κ ν} {request : Request κ ν} {rest : List (Request κ ν)}
      {reply : Reply ν} {replies : List (Reply ν)} {own later : List Event} :
      m.Serves request reply next own -> ServesAll next rest replies after later ->
      ServesAll m (request :: rest) (reply :: replies) after (own ++ later)

theorem ends_serveAll (keying : Keying α κ) (m : Dictionary κ ν)
    (requests : List (Request κ ν)) :
    keying.Ends (m.serveAll keying requests) fun own outcome =>
      exists replies after, outcome = .ok (replies, after) ∧
        m.ServesAll requests replies after own := by
  induction requests generalizing m with
  | nil =>
      exact Keying.ends_done ⟨[], m, rfl, ServesAll.nil m⟩
  | cons request rest ih =>
      unfold serveAll
      apply (m.ends_serve keying request).bind
      · intro own served hserved
        rcases hserved with ⟨reply, next, hserved, hserves⟩
        cases hserved
        apply (ih next).map
        · intro later answered hanswered
          rcases hanswered with ⟨replies, after, hanswered, hrest⟩
          cases hanswered
          exact ⟨reply :: replies, after, rfl, ServesAll.cons hserves hrest⟩
        · intro later error hanswered
          rcases hanswered with ⟨replies, after, hanswered, _hrest⟩
          cases hanswered
      · intro own error hserved
        rcases hserved with ⟨reply, next, hserved, _hserves⟩
        cases hserved

theorem serveAll_append (keying : Keying α κ) (m : Dictionary κ ν)
    (earlier recent : List (Request κ ν)) :
    m.serveAll keying (earlier ++ recent) = (do
      let (before, m) ← m.serveAll keying earlier
      let (replies, m) ← m.serveAll keying recent
      return (before ++ replies, m)) := by
  induction earlier generalizing m with
  | nil =>
      exact (bind_pure (m.serveAll keying recent)).symm
  | cons request rest ih =>
      simp only [List.cons_append, serveAll, ih, bind_assoc, pure_bind]

end Dictionary

/-! ## The log -/

/-- Between the two the log grew by these events about tombstones, amid those of the keying. -/
def Keying.Logged (keying : Keying α κ) (before after : Cells α) (own : List Event) : Prop :=
  exists noted, keying.Amid own noted ∧ after.maintenance = before.maintenance ++ noted

theorem Cells.run_ends {keying : Keying α κ} {x : Action α β}
    {P : List Event -> Except Error β -> Prop} (hx : keying.Ends x P) (cells : Cells α) :
    exists own, P own (run x cells).1 ∧ keying.Logged cells (run x cells).2 own := by
  rcases run_always hx cells with ⟨events, ⟨own, hown, hP⟩, hlog⟩
  exact ⟨own, hP, _, hown, hlog⟩

theorem Keying.Logged.exact {keying : Keying α κ} {before after : Cells α} {own : List Event}
    (h : keying.Logged before after own) (hquiet : keying.Quiet) :
    after.maintenance = before.maintenance ++ own := by
  rcases h with ⟨noted, hown, hlog⟩
  rw [hlog, hown.exact hquiet]

end ValueStore
