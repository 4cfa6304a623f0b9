import ValueStore.Proofs.Sequence.Asking
import ValueStore.Proofs.Sequence.Standing

/-!
# Draining a sequence

A sequence is drained by taking its first element away over and over, with questions in between.
Every shorter version has a cell of its own, which keeps nothing, so it is not plain that chains
are not joined again and again. What settles it is the joining still owed: one as long as there is
a back chain, unless the front chain is gone and the cell is filled. Reading pays it off, and
nothing else changes it: while there is a front chain each version owes what the one before owed,
and what is left of a sequence that was read has no back chain any more.
-/

namespace ValueStore

namespace Action

variable {α β : Type}

theorem run_map {γ : Type} (x : Action α β) (f : β -> γ) (cells : Cells α) :
    Cells.run (do return f (← x)) cells =
      ((Cells.run x cells).1.map f, (Cells.run x cells).2) := by
  rw [Cells.run_bind]
  rcases Cells.run x cells with ⟨answer, after⟩
  cases answer <;> rfl

theorem run_elements_bind (s : Sequence α) (f : List α -> Action α β) (cells : Cells α) :
    Cells.run (elements s >>= f) cells = Cells.run (f (cells.read s).1) (cells.read s).2 :=
  rfl

def outcome (x : Action α β) : Action α (Except Error β) :=
  (do return Except.ok (← x)).recover fun error => return Except.error error

theorem run_outcome (x : Action α β) (cells : Cells α) :
    Cells.run x.outcome cells = (.ok (Cells.run x cells).1, (Cells.run x cells).2) := by
  unfold outcome
  rw [Cells.run_recover, Cells.run_bind]
  rcases Cells.run x cells with ⟨answer, after⟩
  cases answer <;> rfl

end Action

namespace Sequence

variable {α : Type}

/-! ## Calls of the newest version -/

inductive Call where
  | head
  | last
  | length
  | rest
  deriving DecidableEq

inductive Reply (α : Type) where
  | element (x : α)
  | count (n : Nat)
  | shorter (s : Sequence α)

def ask (s : Sequence α) : Call -> Action α (Reply α)
  | .head => do return .element (← s.head)
  | .last => do return .element (← s.last)
  | .length => return .count s.length
  | .rest => do return .shorter (← s.rest)

def newest (s : Sequence α) : Except Error (Reply α) -> Sequence α
  | .ok (.shorter t) => t
  | _ => s

def drain (s : Sequence α) : List Call -> Action α (List (Except Error (Reply α)) × Sequence α)
  | [] => return ([], s)
  | call :: calls => do
      let reply ← (s.ask call).outcome
      let (replies, newest) ← (s.newest reply).drain calls
      return (reply :: replies, newest)

def Call.Fits (xs : List α) : Call -> Except Error (Reply α) -> Prop
  | head, reply => reply = (Outline.found .head xs.head?).map Reply.element
  | last, reply => reply = (Outline.found .last xs.getLast?).map Reply.element
  | length, reply => reply = .ok (.count xs.length)
  | rest, reply =>
      match xs with
      | [] => reply = .error (.emptyCollection .rest)
      | _ :: beyond => exists t : Sequence α, reply = .ok (.shorter t) ∧ t.Stands beyond

def Call.taken : Call -> Nat
  | rest => 1
  | _ => 0

/-! ## The joining still owed -/

/-- What draining a sequence to its end is still going to log. -/
def owed (s : Sequence α) (cells : Cells α) : List Event :=
  if s.back.isEmpty || (s.front.isEmpty && (cells.kept? s.cell).isSome) then
    []
  else
    [.joined 0 s.back.length]

theorem owed_of_no_back {s : Sequence α} (hback : s.back = []) (cells : Cells α) :
    s.owed cells = [] := by
  simp [owed, hback]

theorem owed_eq (s : Sequence α) (cells : Cells α) :
    s.owed cells = [] ∨ s.owed cells = [.joined 0 s.back.length] := by
  unfold owed
  split
  · exact Or.inl rfl
  · exact Or.inr rfl

structure Sound (s : Sequence α) (xs : List α) (cells : Cells α) : Prop where
  stands : s.Stands xs
  stocked : cells.Stocked fun t => t = s

/-- What is logged between two versions is what the later one owes no more. -/
structure Pays (s : Sequence α) (cells : Cells α) (t : Sequence α) (after : Cells α)
    (noted : List Event) : Prop where
  log : after.events.toList = cells.events.toList ++ noted
  owed : noted ++ t.owed after = s.owed cells

theorem pays_nothing {s t : Sequence α} {cells after : Cells α}
    (hlog : after.events = cells.events) (howed : t.owed after = s.owed cells) :
    Pays s cells t after [] where
  log := by rw [hlog, List.append_nil]
  owed := howed

theorem Pays.trans {s t u : Sequence α} {cells between after : Cells α}
    {earlier later : List Event} (h : Pays s cells t between earlier)
    (h' : Pays t between u after later) :
    Pays s cells u after (earlier ++ later) where
  log := by rw [h'.log, h.log, List.append_assoc]
  owed := by rw [List.append_assoc, h'.owed, h.owed]

theorem Sound.read {s : Sequence α} {xs : List α} {cells : Cells α} (h : s.Sound xs cells)
    (hfront : s.front = []) :
    (cells.read s).1 = xs ∧ s.Sound xs (cells.read s).2 ∧ s.owed (cells.read s).2 = [] ∧
      exists noted, Pays s cells s (cells.read s).2 noted := by
  have hread := h.stocked.faithful.read (s := s) rfl
  have hsound : s.Sound xs (cells.read s).2 :=
    { stands := h.stands
      stocked :=
        { faithful := hread.2
          given := fun t ht hback => by
            rw [Cells.size_read]
            exact h.stocked.given t ht hback } }
  refine ⟨hread.1.trans h.stands.toList, hsound, ?_⟩
  by_cases hback : s.back = []
  · have hcells : cells.read s = (s.front, cells) := by
      simp [Cells.read, hback]
    rw [hcells]
    exact ⟨owed_of_no_back hback cells, [], pays_nothing rfl rfl⟩
  · cases hkept : cells.kept? s.cell with
    | some elements =>
        have howed : s.owed cells = [] := by
          simp [owed, hfront, hkept]
        rw [Cells.read_of_kept hback hkept]
        exact ⟨howed, [], pays_nothing rfl rfl⟩
    | none =>
        have hjoining : s.joining = .joined 0 s.back.length := by
          simp [joining, hfront]
        have hbefore : s.owed cells = [.joined 0 s.back.length] := by
          simp [owed, hback, hkept]
        have hfilled := (Cells.mem_filled_fill (h.stocked.given s rfl hback)
          (cells.events.push s.joining) s.cell).mpr List.mem_cons_self
        rw [Cells.read_of_not_kept hback h.stands.counted hkept]
        have hafter : s.owed { chains := cells.chains.setIfInBounds s.cell (some s.toList),
                               events := cells.events.push s.joining } = [] := by
          rw [Cells.mem_filled] at hfilled
          simp [owed, hfront, hfilled]
        refine ⟨hafter, [s.joining], ?_, ?_⟩
        · exact Array.toList_push
        · rw [hafter, hbefore, hjoining]
          rfl

/-! ## One call -/

theorem Sound.run_head {s : Sequence α} {xs : List α} {cells : Cells α} (h : s.Sound xs cells) :
    exists after noted,
      Cells.run s.head cells = (Outline.found .head xs.head?, after) ∧ s.Sound xs after ∧
        Pays s cells s after noted := by
  unfold Sequence.head
  cases hfront : s.front with
  | cons x front =>
      have hxs : xs.head? = some x := by
        simp [← h.stands.toList, Sequence.toList, hfront]
      rw [hxs]
      exact ⟨cells, [], rfl, h, pays_nothing rfl rfl⟩
  | nil =>
      rcases h.read hfront with ⟨hread, hsound, _howed, noted, hpays⟩
      refine ⟨_, noted, ?_, hsound, hpays⟩
      dsimp only
      rw [Action.run_elements_bind, hread]
      cases xs <;> rfl

theorem Sound.run_last {s : Sequence α} {xs : List α} {cells : Cells α} (h : s.Sound xs cells) :
    Cells.run s.last cells = (Outline.found .last xs.getLast?, cells) := by
  rw [← h.stands.toList, Sequence.toList]
  unfold Sequence.last
  cases hback : s.back with
  | cons x back =>
      simp only [List.reverse_cons, ← List.append_assoc, List.getLast?_concat]
      rfl
  | nil =>
      rw [List.reverse_nil, List.append_nil]
      cases s.front.getLast? <;> rfl

theorem sound_allocate {t : Sequence α} {xs : List α} {cells : Cells α} (ht : t.Stands xs)
    {s : Sequence α} (hcells : cells.Stocked fun u => u = s) (hcell : t.cell = cells.chains.size) :
    t.Sound xs cells.allocate.2 where
  stands := ht
  stocked := (hcells.allocate hcell).mono fun _ hu _hback => Or.inr hu

theorem owed_shortened {s : Sequence α} {x : α} {front : List α} (hfront : s.front = x :: front)
    (cells : Cells α) :
    (s.shortened front cells.chains.size).owed cells.allocate.2 = s.owed cells := by
  have hkept : cells.allocate.2.kept? cells.chains.size = none := by
    rw [Cells.kept?_allocate]
    exact Cells.kept?_of_size_le (Nat.le_refl _)
  simp [owed, shortened, hfront, hkept]

theorem Sound.run_rest {s : Sequence α} {x : α} {beyond : List α} {cells : Cells α}
    (h : s.Sound (x :: beyond) cells) :
    exists t after noted,
      Cells.run s.rest cells = (.ok t, after) ∧ t.Sound beyond after ∧
        Pays s cells t after noted := by
  cases hfront : s.front with
  | cons y front =>
      rw [rest_of_front hfront]
      refine ⟨_, _, [], rfl, ?_, pays_nothing rfl (owed_shortened hfront cells)⟩
      refine sound_allocate ⟨counted_shortened h.stands.counted hfront _, ?_⟩ h.stocked rfl
      have htoList := h.stands.toList
      rw [Sequence.toList, hfront] at htoList
      exact (List.cons.inj htoList).2
  | nil =>
      rcases h.read hfront with ⟨hread, hsound, howed, noted, hpays⟩
      have hrun : Cells.run s.rest cells =
          (.ok (s.remainder beyond (cells.read s).2.chains.size), (cells.read s).2.allocate.2) := by
        unfold Sequence.rest
        rw [hfront]
        dsimp only
        rw [Action.run_elements_bind, hread]
        rfl
      refine ⟨_, _, noted, hrun, ?_, ?_⟩
      · refine sound_allocate ⟨⟨?_, rfl⟩, ?_⟩ hsound.stocked rfl
        · simp [remainder, h.stands.length_eq]
        · simp [remainder, Sequence.toList]
      · have hnothing : (s.remainder beyond (cells.read s).2.chains.size).owed
            (cells.read s).2.allocate.2 = [] :=
          owed_of_no_back rfl _
        constructor
        · exact hpays.log
        · rw [hnothing, ← howed]
          exact hpays.owed

theorem Sound.run_rest_of_nil {s : Sequence α} {cells : Cells α} (h : s.Sound [] cells) :
    Cells.run s.rest cells = (.error (.emptyCollection .rest), cells) := by
  have hchains := List.append_eq_nil_iff.mp h.stands.toList
  have hback := List.reverse_eq_nil_iff.mp hchains.2
  have hread : cells.read s = ([], cells) := by
    simp [Cells.read, hback, hchains.1]
  unfold Sequence.rest
  rw [hchains.1]
  dsimp only
  rw [Action.run_elements_bind, hread]
  rfl

theorem Sound.ask {s : Sequence α} {xs : List α} {cells : Cells α} (h : s.Sound xs cells)
    (call : Call) :
    exists reply after noted,
      Cells.run (s.ask call).outcome cells = (.ok reply, after) ∧ call.Fits xs reply ∧
        (s.newest reply).Sound (xs.drop call.taken) after ∧
        Pays s cells (s.newest reply) after noted := by
  rw [Action.run_outcome]
  cases call with
  | head =>
      rcases h.run_head with ⟨after, noted, hrun, hsound, hpays⟩
      unfold Sequence.ask
      rw [Action.run_map, hrun]
      refine ⟨_, after, noted, rfl, rfl, ?_⟩
      cases xs <;> exact ⟨hsound, hpays⟩
  | last =>
      unfold Sequence.ask
      rw [Action.run_map, h.run_last]
      refine ⟨_, cells, [], rfl, rfl, ?_⟩
      cases xs.getLast? <;> exact ⟨h, pays_nothing rfl rfl⟩
  | length =>
      refine ⟨_, cells, [], rfl, ?_, h, pays_nothing rfl rfl⟩
      exact congrArg (fun n => Except.ok (Reply.count n)) h.stands.length_eq
  | rest =>
      unfold Sequence.ask
      rw [Action.run_map]
      cases xs with
      | nil =>
          rw [h.run_rest_of_nil]
          exact ⟨_, cells, [], rfl, rfl, h, pays_nothing rfl rfl⟩
      | cons x beyond =>
          rcases h.run_rest with ⟨t, after, noted, hrun, hsound, hpays⟩
          rw [hrun]
          exact ⟨_, after, noted, rfl, ⟨t, rfl, hsound.stands⟩, hsound, hpays⟩

/-! ## Calls one after the other -/

theorem drop_count_rest (xs : List α) (call : Call) (calls : List Call) :
    xs.drop ((call :: calls).count .rest) = (xs.drop call.taken).drop (calls.count .rest) := by
  rw [List.drop_drop]
  congr 1
  cases call with
  | rest =>
      rw [List.count_cons_self, Nat.add_comm]
      rfl
  | _ =>
      rw [List.count_cons_of_ne (by decide)]
      exact (Nat.zero_add _).symm

theorem Sound.drain {s : Sequence α} {xs : List α} {cells : Cells α} (h : s.Sound xs cells)
    (calls : List Call) :
    exists replies newest after noted,
      Cells.run (s.drain calls) cells = (.ok (replies, newest), after) ∧
        replies.length = calls.length ∧
        (forall i (call : Call), calls[i]? = some call -> exists reply,
          replies[i]? = some reply ∧ call.Fits (xs.drop ((calls.take i).count .rest)) reply) ∧
        newest.Sound (xs.drop (calls.count .rest)) after ∧ Pays s cells newest after noted := by
  induction calls generalizing s xs cells with
  | nil =>
      refine ⟨[], s, cells, [], rfl, rfl, ?_, h, pays_nothing rfl rfl⟩
      intro i call hcall
      cases hcall
  | cons call calls ih =>
      rcases h.ask call with ⟨reply, between, earlier, hask, hfits, hsound, hpays⟩
      rcases ih hsound with
        ⟨replies, newest, after, later, hdrain, hlength, hall, hnewest, hlater⟩
      refine ⟨reply :: replies, newest, after, earlier ++ later, ?_, congrArg Nat.succ hlength,
        ?_, ?_, hpays.trans hlater⟩
      · unfold Sequence.drain
        rw [Cells.run_bind, hask]
        dsimp only
        rw [Cells.run_bind, hdrain]
        rfl
      · intro i call' hcall
        cases i with
        | zero =>
            cases hcall
            exact ⟨reply, rfl, hfits⟩
        | succ i =>
            rw [List.take_succ_cons, drop_count_rest]
            exact hall i call' hcall
      · rw [drop_count_rest]
        exact hnewest

/--
Whatever is asked between, the calls of `rest` come to the list without its first element, without
its first two, and so on until nothing is left, and are refused from then on. In all this the
chains are joined once at most. If the sequence is drained to its end they are joined exactly if it
has a back chain and, in case it has no front chain, its cell was empty.
-/
theorem drain_joins_once {s : Sequence α} {xs : List α} (h : s.Stands xs) {cells : Cells α}
    (hcells : cells.Stocked fun t => t = s) (calls : List Call) :
    exists replies newest after noted,
      Cells.run (s.drain calls) cells = (.ok (replies, newest), after) ∧
        replies.length = calls.length ∧
        (forall i (call : Call), calls[i]? = some call -> exists reply,
          replies[i]? = some reply ∧ call.Fits (xs.drop ((calls.take i).count .rest)) reply) ∧
        newest.Stands (xs.drop (calls.count .rest)) ∧
        after.events.toList = cells.events.toList ++ noted ∧
        (noted = [] ∨ noted = [.joined 0 s.back.length]) ∧
        (xs.length ≤ calls.count .rest ->
          (s.front ≠ [] ->
            noted = if s.back.isEmpty then [] else [.joined 0 s.back.length]) ∧
          (s.front = [] ->
            noted = if s.back.isEmpty || (cells.kept? s.cell).isSome then []
              else [.joined 0 s.back.length])) := by
  rcases Sound.drain ⟨h, hcells⟩ calls with
    ⟨replies, newest, after, noted, hrun, hlength, hall, hsound, hpays⟩
  refine ⟨replies, newest, after, noted, hrun, hlength, hall, hsound.stands, hpays.log, ?_, ?_⟩
  · have howed := hpays.owed
    rcases s.owed_eq cells with hnone | hone
    · rw [hnone] at howed
      exact Or.inl (List.append_eq_nil_iff.mp howed).1
    · rw [hone, List.append_eq_singleton_iff] at howed
      exact howed.imp And.left And.left
  · intro hdrained
    -- nothing is left, so there is no back chain and nothing owed
    have htoList := hsound.stands.toList
    rw [List.drop_eq_nil_of_le hdrained] at htoList
    have hback := List.reverse_eq_nil_iff.mp (List.append_eq_nil_iff.mp htoList).2
    have howed := hpays.owed
    rw [owed_of_no_back hback, List.append_nil] at howed
    rw [howed]
    constructor
    · intro hfront
      simp [owed, hfront]
    · intro hfront
      simp [owed, hfront]

def readBefore : Sequence Nat :=
  { front := [1], frontLength := 1, back := [3, 2], backLength := 2, cell := 0 }

/-- The cell is of no use to what is left without the first element, which is joined anew. -/
theorem drain_joins_once_readBefore :
    readBefore.Stands [1, 2, 3] ∧
      ({ chains := #[some [1, 2, 3]], events := #[] } : Cells Nat).Stocked
        (fun t => t = readBefore) ∧
      exists replies newest after,
        Cells.run (readBefore.drain [.last, .rest, .head, .rest, .length, .head, .rest, .rest])
            { chains := #[some [1, 2, 3]], events := #[] } = (.ok (replies, newest), after) ∧
          replies[2]? = some (.ok (.element 2)) ∧
          (exists t : Sequence Nat, replies[3]? = some (.ok (.shorter t)) ∧ t.Stands [3]) ∧
          replies[7]? = some (.error (.emptyCollection .rest)) ∧
          after.events.toList = [.joined 0 2] := by
  have hstands : readBefore.Stands [1, 2, 3] := ⟨⟨rfl, rfl⟩, rfl⟩
  have hstocked : ({ chains := #[some [1, 2, 3]], events := #[] } : Cells Nat).Stocked
      (fun t => t = readBefore) := by
    constructor
    · constructor
      · rintro t elements rfl _hback hkept
        cases hkept
        rfl
      · rintro t u rfl rfl _ _ _
        rfl
    · rintro t rfl _hback
      exact Nat.zero_lt_one
  rcases drain_joins_once hstands hstocked
    [.last, .rest, .head, .rest, .length, .head, .rest, .rest] with
    ⟨replies, newest, after, noted, hrun, _hlength, hall, _hnewest, hlog, _hone, hdrained⟩
  refine ⟨hstands, hstocked, replies, newest, after, hrun, ?_, ?_, ?_, ?_⟩
  · rcases hall 2 .head rfl with ⟨reply, hreply, rfl⟩
    exact hreply
  · rcases hall 3 .rest rfl with ⟨reply, hreply, t, rfl, ht⟩
    exact ⟨t, hreply, ht⟩
  · rcases hall 7 .rest rfl with ⟨reply, hreply, rfl⟩
    exact hreply
  · rw [hlog, (hdrained (by decide)).1 (by decide)]
    rfl

end Sequence

end ValueStore
