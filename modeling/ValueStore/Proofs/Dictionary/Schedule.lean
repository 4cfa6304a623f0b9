import Mathlib.Data.List.DropRight
import ValueStore.Proofs.Dictionary.Events
import ValueStore.Proofs.Dictionary.Garbage

/-!
# When the tombstones are looked at

Under a policy of threshold `t` every deletion whose number is a multiple of `t + 1` looks
at the tombstones, and no other one does. The numbers are those of the deletions that took
an entry out, counted from the last rebuild that was asked for. So the count of deletions
that a dictionary keeps is the remainder of that number, and the looks are its quotient.
-/

namespace ValueStore

variable {α κ ν : Type}

namespace Request

def deletions (requests : List (Request κ ν)) (replies : List (Reply ν)) : Nat :=
  (requests.zip replies).countP fun served => served.1.deletes served.2

def untilCompact (requests : List (Request κ ν)) : List (Request κ ν) :=
  requests.rdropWhile fun request => !request.isCompact

def sinceCompact (requests : List (Request κ ν)) : List (Request κ ν) :=
  requests.rtakeWhile fun request => !request.isCompact

theorem untilCompact_append_sinceCompact (requests : List (Request κ ν)) :
    untilCompact requests ++ sinceCompact requests = requests :=
  List.rdropWhile_append_rtakeWhile

theorem not_isCompact_of_mem_sinceCompact {requests : List (Request κ ν)}
    {request : Request κ ν} (hmem : request ∈ sinceCompact requests) :
    request.isCompact = false := by
  simpa using List.mem_rtakeWhile_imp hmem

theorem untilCompact_eq (requests : List (Request κ ν)) :
    untilCompact requests = [] ∨ exists before, untilCompact requests = before ++ [.compact] := by
  by_cases hne : untilCompact requests = []
  · exact Or.inl hne
  · have hlast := List.rdropWhile_last_not _ requests hne
    have hcompact : (untilCompact requests).getLast hne = .compact := by
      change ¬(!((untilCompact requests).getLast hne).isCompact) = true at hlast
      revert hlast
      cases (untilCompact requests).getLast hne with
      | compact =>
          exact fun _ => rfl
      | _ =>
          exact fun hlast => absurd rfl hlast
    have happend := List.dropLast_append_getLast hne
    rw [hcompact] at happend
    exact Or.inr ⟨_, happend.symm⟩

theorem deletions_cons (request : Request κ ν) (requests : List (Request κ ν)) (reply : Reply ν)
    (replies : List (Reply ν)) :
    deletions (request :: requests) (reply :: replies) =
      deletions requests replies + if request.deletes reply then 1 else 0 :=
  List.countP_cons ..

end Request

namespace Dictionary

/-! ## What no request changes -/

structure Kept (policy : Policy) (m : Dictionary κ ν) : Prop where
  policy : m.policy = policy
  index : m.index.RedBlack
  counted : m.size = m.toList.length

theorem kept_withPolicy (policy : Policy) :
    (withPolicy policy : Dictionary κ ν).Kept policy :=
  ⟨rfl, Index.redBlack_empty, rfl⟩

theorem Kept.compact {policy : Policy} {m : Dictionary κ ν} (h : m.Kept policy) :
    m.compact.Kept policy where
  policy := h.policy
  index := Index.redBlack_empty.putAll _ _
  counted := counted_compact h.index h.counted

theorem Kept.added {policy : Policy} {m : Dictionary κ ν} (h : m.Kept policy) (hash : Int64)
    (key : κ) (value : ν) :
    (m.added hash key value).Kept policy where
  policy := h.policy
  index := h.index.put _ _ _
  counted := counted_added h.counted hash key value

theorem Kept.takenAt {policy : Policy} {m taken : Dictionary κ ν} (h : m.Kept policy)
    {hash : Int64} {i : Nat} (hi : i < (m.candidates hash).length)
    (htaken : m.TakenAt hash i taken) :
    taken.Kept policy where
  policy := htaken.policy.trans h.policy
  index := htaken.redBlack h.index
  counted := htaken.counted hi h.counted

theorem Kept.settle {policy : Policy} {m : Dictionary κ ν} (h : m.Kept policy) :
    m.settle.1.Kept policy := by
  unfold Dictionary.settle
  split
  · exact h
  · split
    · exact ⟨h.policy, h.index, h.counted⟩
    · exact h.compact

theorem Kept.serves {policy : Policy} {m after : Dictionary κ ν} (h : m.Kept policy)
    {request : Request κ ν} {reply : Reply ν} {own : List Event}
    (hserves : m.Serves request reply after own) :
    after.Kept policy := by
  cases hserves with
  | compacted =>
      exact h.compact
  | deleted _hdeletes hi htaken =>
      exact (h.takenAt hi htaken).settle
  | added hash key value =>
      exact h.added hash key value
  | unchanged _hrequest _hdeletes =>
      exact h

theorem Kept.servesAll {policy : Policy} {m after : Dictionary κ ν} (h : m.Kept policy)
    {requests : List (Request κ ν)} {replies : List (Reply ν)} {own : List Event}
    (hserves : m.ServesAll requests replies after own) :
    after.Kept policy := by
  induction hserves with
  | nil m =>
      exact h
  | cons hrequest _hrest ih =>
      exact ih (h.serves hrequest)

theorem always_kept_serveAll (keying : Keying α κ) (policy : Policy)
    (requests : List (Request κ ν)) :
    ((withPolicy policy : Dictionary κ ν).serveAll keying requests).Always fun _ outcome =>
      exists replies m, outcome = .ok (replies, m) ∧ m.Kept policy := by
  apply Action.Always.mono (ends_serveAll keying (withPolicy policy) requests)
  intro _events outcome hserved
  rcases hserved with ⟨_own, _hamid, replies, m, houtcome, hserves⟩
  exact ⟨replies, m, houtcome, (kept_withPolicy policy).servesAll hserves⟩

/-! ## One deletion -/

/--
What follows the deletion of the given number, which left `taken` behind. Unless the number is a
multiple of the threshold plus one, nothing does.
-/
inductive SettledAt (policy : Policy) (number : Nat) (taken : Dictionary κ ν) :
    Dictionary κ ν -> List Event -> Prop where
  | counted : ¬policy.threshold + 1 ∣ number -> SettledAt policy number taken taken []
  | deferred :
      policy.threshold + 1 ∣ number -> taken.tombstones < policy.minimum ->
      SettledAt policy number taken { taken with deletions := 0 }
        [.compactionDeferred (policy.threshold + 1) taken.tombstones]
  | compacted {after : Dictionary κ ν} :
      policy.threshold + 1 ∣ number -> policy.minimum ≤ taken.tombstones ->
      after.tombstones = 0 -> after.toList.Perm taken.toList ->
      SettledAt policy number taken after
        [.compacted (policy.threshold + 1) taken.tombstones taken.toList.length]

/-- Between two requests: the deletions and the looks at the tombstones since some point. -/
structure Paced (policy : Policy) (number looks : Nat) (m : Dictionary κ ν) : Prop where
  kept : m.Kept policy
  deletions : m.deletions ≤ policy.threshold
  total : m.deletions + (policy.threshold + 1) * looks = number

/-- A multiple of the threshold plus one is reached exactly if the count is about to pass it. -/
theorem dvd_number_iff {threshold number looks deletions : Nat}
    (hdeletions : deletions ≤ threshold)
    (htotal : deletions + (threshold + 1) * looks = number) :
    threshold + 1 ∣ number + 1 ↔ deletions = threshold := by
  have hshift : number + 1 = (deletions + 1) + (threshold + 1) * looks := by
    omega
  rw [hshift, Nat.dvd_add_left (Nat.dvd_mul_right _ _)]
  constructor
  · intro hdvd
    exact Nat.le_antisymm hdeletions
      (Nat.le_of_succ_le_succ (Nat.le_of_dvd (Nat.succ_pos _) hdvd))
  · rintro rfl
    exact Nat.dvd_refl _

theorem Paced.takenAt {policy : Policy} {number looks : Nat} {m taken : Dictionary κ ν}
    (h : m.Paced policy number looks) {hash : Int64} {i : Nat}
    (hi : i < (m.candidates hash).length) (htaken : m.TakenAt hash i taken) :
    SettledAt policy (number + 1) taken taken.settle.1 taken.settle.2.toList ∧
      taken.settle.1.Paced policy (number + 1) (looks + taken.settle.2.toList.length) := by
  have hkept := h.kept.takenAt hi htaken
  have hthreshold : taken.policy.threshold = policy.threshold := by
    rw [hkept.policy]
  have hminimum : taken.policy.minimum = policy.minimum := by
    rw [hkept.policy]
  have hdvd := dvd_number_iff h.deletions h.total
  have hdeletions := htaken.deletions
  have hle := h.deletions
  have htotal := h.total
  have hsettle := hkept.settle
  unfold Dictionary.settle at hsettle ⊢
  by_cases hpassed : taken.deletions ≤ taken.policy.threshold
  · rw [if_pos hpassed]
    refine ⟨SettledAt.counted ?_, hkept, hthreshold ▸ hpassed, ?_⟩
    · rw [hdvd]
      omega
    · show taken.deletions + (policy.threshold + 1) * looks = number + 1
      omega
  · -- the threshold is passed for the first time, so by one
    have hlast : m.deletions = policy.threshold := by
      omega
    have hnumber : taken.deletions = policy.threshold + 1 := by
      omega
    have hnext : 0 + (policy.threshold + 1) * (looks + 1) = number + 1 := by
      rw [Nat.mul_succ]
      omega
    rw [if_neg hpassed, hnumber] at hsettle ⊢
    by_cases hfew : taken.tombstones < taken.policy.minimum
    · rw [if_pos hfew] at hsettle ⊢
      exact ⟨SettledAt.deferred (hdvd.mpr hlast) (hminimum ▸ hfew), hsettle, Nat.zero_le _, hnext⟩
    · have hmany : policy.minimum ≤ taken.tombstones := by
        omega
      rw [if_neg hfew, hkept.counted] at hsettle ⊢
      exact ⟨SettledAt.compacted (hdvd.mpr hlast) hmany (tombstones_compact hkept.index)
        (toList_compact hkept.index), hsettle, Nat.zero_le _, hnext⟩

/-! ## Runs of requests -/

theorem Paced.serves {policy : Policy} {number looks : Nat} {m after : Dictionary κ ν}
    (h : m.Paced policy number looks) {request : Request κ ν} {reply : Reply ν}
    {own : List Event} (hserves : m.Serves request reply after own)
    (hrequest : request.isCompact = false) :
    after.Paced policy (number + if request.deletes reply then 1 else 0)
      (looks + own.length) := by
  cases hserves with
  | compacted =>
      cases hrequest
  | deleted hdeletes hi htaken =>
      rw [hdeletes]
      exact (h.takenAt hi htaken).2
  | added hash key value =>
      exact ⟨h.kept.added hash key value, h.deletions, h.total⟩
  | unchanged _hrequest hdeletes =>
      rw [hdeletes]
      exact h

theorem Paced.servesAll {policy : Policy} {number looks : Nat} {m after : Dictionary κ ν}
    (h : m.Paced policy number looks) {requests : List (Request κ ν)}
    {replies : List (Reply ν)} {own : List Event}
    (hserves : m.ServesAll requests replies after own)
    (hrequests : forall request, request ∈ requests -> request.isCompact = false) :
    after.Paced policy (number + Request.deletions requests replies) (looks + own.length) := by
  induction hserves generalizing number looks with
  | nil m =>
      exact h
  | cons hrequest _hrest ih =>
      rcases List.forall_mem_cons.mp hrequests with ⟨hfirst, hothers⟩
      have hpaced := ih (h.serves hrequest hfirst) hothers
      rw [Request.deletions_cons, List.length_append, Nat.add_comm (Request.deletions _ _),
        ← Nat.add_assoc, ← Nat.add_assoc]
      exact hpaced

theorem ServesAll.deletions_of_compact {m after : Dictionary κ ν}
    {before : List (Request κ ν)} {replies : List (Reply ν)} {own : List Event}
    (hserves : m.ServesAll (before ++ [.compact]) replies after own) :
    after.deletions = 0 := by
  induction before generalizing m replies own with
  | nil =>
      cases hserves with
      | cons hrequest hrest =>
          cases hrest
          cases hrequest with
          | compacted =>
              rfl
          | deleted hdeletes _hi _htaken =>
              cases hdeletes
          | unchanged hrequest _hdeletes =>
              cases hrequest
  | cons request rest ih =>
      cases hserves with
      | cons _hrequest hrest =>
          exact ih hrest

theorem paced_of_untilCompact {policy : Policy} {m : Dictionary κ ν}
    {requests : List (Request κ ν)} {replies : List (Reply ν)} {own : List Event}
    (hserves : (withPolicy policy).ServesAll (Request.untilCompact requests) replies m own) :
    m.Paced policy 0 0 := by
  have hkept := (kept_withPolicy policy).servesAll hserves
  have hdeletions : m.deletions = 0 := by
    rcases Request.untilCompact_eq requests with hnil | ⟨before, hcompact⟩
    · rw [hnil] at hserves
      cases hserves
      rfl
    · rw [hcompact] at hserves
      exact hserves.deletions_of_compact
  refine ⟨hkept, ?_, ?_⟩
  · rw [hdeletions]
    exact Nat.zero_le _
  · rw [hdeletions, Nat.mul_zero]

theorem Paced.deletions_eq_mod {policy : Policy} {number looks : Nat} {m : Dictionary κ ν}
    (h : m.Paced policy number looks) :
    m.deletions = number % (policy.threshold + 1) := by
  rw [← h.total, Nat.add_mul_mod_self_left, Nat.mod_eq_of_lt (Nat.lt_succ_of_le h.deletions)]

theorem Paced.looks_eq_div {policy : Policy} {number looks : Nat} {m : Dictionary κ ν}
    (h : m.Paced policy number looks) :
    looks = number / (policy.threshold + 1) := by
  rw [← h.total, Nat.add_mul_div_left _ _ (Nat.succ_pos _),
    Nat.div_eq_of_lt (Nat.lt_succ_of_le h.deletions), Nat.zero_add]

/--
What one request notes about tombstones. A deletion that takes an entry out, being the one of the
given number, notes what the policy leads to; any other request notes nothing.
-/
structure NotesAt (policy : Policy) (number : Nat) (m : Dictionary κ ν) (request : Request κ ν)
    (reply : Reply ν) (after : Dictionary κ ν) (own : List Event) : Prop where
  silent : request.deletes reply = false -> own = []
  settled : request.deletes reply = true ->
    exists (hash : Int64) (i : Nat) (taken : Dictionary κ ν), i < (m.candidates hash).length ∧
      m.TakenAt hash i taken ∧ SettledAt policy number taken after own

theorem Paced.notesAt {policy : Policy} {number looks : Nat} {m after : Dictionary κ ν}
    (h : m.Paced policy number looks) {request : Request κ ν} {reply : Reply ν}
    {own : List Event} (hserves : m.Serves request reply after own) :
    m.NotesAt policy (number + 1) request reply after own := by
  cases hserves with
  | compacted =>
      exact ⟨fun _ => rfl, nofun⟩
  | @deleted request reply hash i taken hdeletes hi htaken =>
      constructor
      · intro hsilent
        cases hdeletes.symm.trans hsilent
      · intro _hdeletes
        exact ⟨hash, i, taken, hi, htaken, (h.takenAt hi htaken).1⟩
  | added hash key value =>
      exact ⟨fun _ => rfl, nofun⟩
  | unchanged _hrequest hdeletes =>
      constructor
      · exact fun _ => rfl
      · intro hsettled
        cases hdeletes.symm.trans hsettled

theorem run_serveAll (keying : Keying α κ) (m : Dictionary κ ν) (requests : List (Request κ ν))
    (cells : Cells α) :
    exists replies after own finish,
      Cells.run (m.serveAll keying requests) cells = (.ok (replies, after), finish) ∧
        m.ServesAll requests replies after own ∧ keying.Logged cells finish own := by
  rcases Cells.run_ends (m.ends_serveAll keying requests) cells with
    ⟨own, ⟨replies, after, houtcome, hserves⟩, hlogged⟩
  exact ⟨replies, after, own, _, Prod.ext houtcome rfl, hserves, hlogged⟩

/--
Under every keying and every policy, and whatever the cells keep, a run of requests from an empty
dictionary comes to an end. Of the deletions that took an entry out since the last rebuild that was
asked for, the dictionary counts the remainder modulo the threshold plus one, and the quotient is
the number of events the dictionary noted since then. Any further request notes an event only if it
is a deletion that takes an entry out and whose number is a multiple of the threshold plus one.
-/
theorem serveAll_withPolicy_schedule (keying : Keying α κ) (policy : Policy)
    (requests : List (Request κ ν)) (cells : Cells α) :
    exists before rebuilt between replies m after own,
      Cells.run ((withPolicy policy : Dictionary κ ν).serveAll keying
          (Request.untilCompact requests)) cells = (.ok (before, rebuilt), between) ∧
        Cells.run (rebuilt.serveAll keying (Request.sinceCompact requests)) between =
          (.ok (replies, m), after) ∧
        Cells.run ((withPolicy policy : Dictionary κ ν).serveAll keying requests) cells =
          (.ok (before ++ replies, m), after) ∧
        keying.Logged between after own ∧
        m.deletions = Request.deletions (Request.sinceCompact requests) replies %
          (policy.threshold + 1) ∧
        own.length = Request.deletions (Request.sinceCompact requests) replies /
          (policy.threshold + 1) ∧
        forall request (later : Cells α), exists reply next finish noted,
          Cells.run (m.serve keying request) later = (.ok (reply, next), finish) ∧
            keying.Logged later finish noted ∧
              m.NotesAt policy
                (Request.deletions (Request.sinceCompact requests) replies + 1)
                request reply next noted := by
  rcases run_serveAll keying (withPolicy policy) (Request.untilCompact requests) cells with
    ⟨before, rebuilt, _, between, hbefore, hservesBefore, _⟩
  rcases run_serveAll keying rebuilt (Request.sinceCompact requests) between with
    ⟨replies, m, own, after, hrecent, hserves, hlogged⟩
  have hpaced := (paced_of_untilCompact hservesBefore).servesAll hserves
    fun _ => Request.not_isCompact_of_mem_sinceCompact
  rw [Nat.zero_add, Nat.zero_add] at hpaced
  refine ⟨before, rebuilt, between, replies, m, after, own, hbefore, hrecent, ?_, hlogged,
    hpaced.deletions_eq_mod, hpaced.looks_eq_div, ?_⟩
  · have happend := serveAll_append keying (withPolicy policy : Dictionary κ ν)
      (Request.untilCompact requests) (Request.sinceCompact requests)
    rw [Request.untilCompact_append_sinceCompact] at happend
    rw [happend, Cells.run_bind, hbefore]
    dsimp only
    rw [Cells.run_bind, hrecent]
    rfl
  · intro request later
    rcases Cells.run_ends (m.ends_serve keying request) later with
      ⟨noted, ⟨reply, next, houtcome, hnext⟩, hnoted⟩
    exact ⟨reply, next, _, noted, Prod.ext houtcome rfl, hnoted, hpaced.notesAt hnext⟩

end Dictionary

end ValueStore
