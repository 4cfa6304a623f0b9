import Mathlib.Data.List.Basic
import ValueStore.Dictionary.Basic
import ValueStore.Proofs.Action

/-!
# Searching a bucket

Looking for a key compares it with the live entries of one bucket in order. The
search ends at the first entry that answers anything else than a plain no.
-/

namespace ValueStore

namespace Keying

variable {α κ ν : Type}

def Same (keying : Keying α κ) (stored sought : κ) : Prop :=
  (keying.same stored sought).eval = .ok true

def Differ (keying : Keying α κ) (stored sought : κ) : Prop :=
  (keying.same stored sought).eval = .ok false

def Hashable (keying : Keying α κ) (key : κ) : Prop :=
  exists hash, (keying.hash key).eval = .ok hash

def Misses (keying : Keying α κ) (sought : κ) (entries : List (κ × ν)) : Prop :=
  forall entry, entry ∈ entries -> keying.Differ entry.1 sought

/-- How a search through entries ends: with the number of an entry, without one, or refused. -/
inductive Finds (keying : Keying α κ) (sought : κ) :
    List (κ × ν) -> Except Error (Option Nat) -> Prop where
  | absent {entries : List (κ × ν)} :
      keying.Misses sought entries -> Finds keying sought entries (.ok none)
  | found {before after : List (κ × ν)} {entry : κ × ν} :
      keying.Misses sought before -> keying.Same entry.1 sought ->
      Finds keying sought (before ++ entry :: after) (.ok (some before.length))
  | refused {before after : List (κ × ν)} {entry : κ × ν} {error : Error} :
      keying.Misses sought before -> (keying.same entry.1 sought).eval = .error error ->
      Finds keying sought (before ++ entry :: after) (.error error)

theorem Differ.not_same {keying : Keying α κ} {stored sought : κ}
    (hdiffer : keying.Differ stored sought) :
    ¬keying.Same stored sought := by
  intro hsame
  have heq := hdiffer.symm.trans hsame
  cases heq

theorem nodeKey_eval (keying : Keying α κ) (key : κ) :
    (keying.nodeKey key).eval = (keying.hash key).eval.map UInt64.toInt64 :=
  Action.eval_bind_pure _ _

theorem Misses.nil {keying : Keying α κ} {sought : κ} :
    keying.Misses sought ([] : List (κ × ν)) :=
  List.forall_mem_nil _

theorem Misses.cons {keying : Keying α κ} {sought : κ} {entry : κ × ν}
    {entries : List (κ × ν)} (hentry : keying.Differ entry.1 sought)
    (hrest : keying.Misses sought entries) :
    keying.Misses sought (entry :: entries) := by
  intro e he
  rcases List.mem_cons.mp he with rfl | he
  · exact hentry
  · exact hrest e he

theorem Finds.found_head {keying : Keying α κ} {sought : κ} (entry : κ × ν)
    (hsame : keying.Same entry.1 sought) (rest : List (κ × ν)) :
    keying.Finds sought (entry :: rest) (.ok (some 0)) :=
  @Finds.found _ _ _ keying sought [] rest entry Misses.nil hsame

theorem Finds.refused_head {keying : Keying α κ} {sought : κ} (entry : κ × ν) {error : Error}
    (herror : (keying.same entry.1 sought).eval = .error error) (rest : List (κ × ν)) :
    keying.Finds sought (entry :: rest) (.error error) :=
  @Finds.refused _ _ _ keying sought [] rest entry error Misses.nil herror

theorem Finds.skip {keying : Keying α κ} {sought : κ} {entry : κ × ν}
    {entries : List (κ × ν)} {result : Except Error (Option Nat)}
    (hentry : keying.Differ entry.1 sought) (hrest : keying.Finds sought entries result) :
    keying.Finds sought (entry :: entries) (result.map (Option.map (· + 1))) := by
  cases hrest with
  | absent hmisses =>
      exact Finds.absent (hmisses.cons hentry)
  | found hmisses hsame =>
      exact Finds.found (hmisses.cons hentry) hsame
  | refused hmisses herror =>
      exact Finds.refused (hmisses.cons hentry) herror

theorem Finds.misses {keying : Keying α κ} {sought : κ} {entries : List (κ × ν)}
    (h : keying.Finds sought entries (.ok none)) :
    keying.Misses sought entries := by
  cases h with
  | absent hmisses =>
      exact hmisses

theorem Finds.of_nil {keying : Keying α κ} {sought : κ} {result : Except Error (Option Nat)}
    (h : keying.Finds sought ([] : List (κ × ν)) result) :
    result = .ok none := by
  generalize hentries : ([] : List (κ × ν)) = entries at h
  cases h with
  | absent _hmisses =>
      rfl
  | found _hmisses _hsame =>
      simp at hentries
  | refused _hmisses _herror =>
      simp at hentries

theorem Finds.entry {keying : Keying α κ} {sought : κ} {entries : List (κ × ν)} {i : Nat}
    (h : keying.Finds sought entries (.ok (some i))) :
    exists entry, entries[i]? = some entry ∧ keying.Same entry.1 sought ∧
      keying.Misses sought (entries.take i) := by
  cases h with
  | @found before after entry hmisses hsame =>
      exact ⟨entry, by simp, hsame, by simpa using hmisses⟩

theorem Finds.refusal {keying : Keying α κ} {sought : κ} {entries : List (κ × ν)}
    {error : Error} (h : keying.Finds sought entries (.error error)) :
    exists i entry, entries[i]? = some entry ∧
      (keying.same entry.1 sought).eval = .error error ∧
        keying.Misses sought (entries.take i) := by
  cases h with
  | @refused before after entry error hmisses herror =>
      exact ⟨before.length, entry, by simp, herror, by simpa using hmisses⟩

end Keying

namespace Place

def ofNat : Nat -> Place
  | 0 => .primary
  | i + 1 => .overflow i

end Place

namespace Bucket

variable {α κ ν : Type}

/-- One comparison, and a search of the rest if it does not decide; `number` counts the places. -/
theorem finds_step {keying : Keying α κ} {sought : κ} (number : Nat -> Place) (entry : κ × ν)
    {rest : List (κ × ν)} {next : Action α (Option Place)}
    (hnext : exists result, keying.Finds sought rest result ∧
      next.eval = result.map (Option.map fun i => number (i + 1))) :
    exists result, keying.Finds sought (entry :: rest) result ∧
      (keying.same entry.1 sought >>= fun answer =>
          if answer then return some (number 0) else next).eval =
        result.map (Option.map number) := by
  cases hsame : (keying.same entry.1 sought).eval with
  | error error =>
      exact ⟨.error error, Keying.Finds.refused_head entry hsame _,
        Action.eval_bind_of_error hsame _⟩
  | ok answer =>
      rw [Action.eval_bind_of_ok hsame]
      cases answer with
      | true =>
          exact ⟨.ok (some 0), Keying.Finds.found_head entry hsame _, rfl⟩
      | false =>
          rcases hnext with ⟨result, hfinds, heval⟩
          refine ⟨_, hfinds.skip hsame, ?_⟩
          show next.eval = _
          rw [heval]
          cases result with
          | error error =>
              rfl
          | ok found =>
              cases found <;> rfl

theorem findOverflow_finds (keying : Keying α κ) (sought : κ) (index : Nat)
    (entries : List (κ × ν)) :
    exists result, keying.Finds sought entries result ∧
      (findOverflow keying sought index entries).eval =
        result.map (Option.map fun i => Place.overflow (index + i)) := by
  induction entries generalizing index with
  | nil =>
      exact ⟨.ok none, Keying.Finds.absent Keying.Misses.nil, rfl⟩
  | cons entry rest ih =>
      have hrest := ih (index + 1)
      simp only [Nat.add_right_comm index 1] at hrest
      exact finds_step (fun i => Place.overflow (index + i)) entry hrest

theorem entries_of_live {b : Bucket κ ν} (hlive : b.deleted = false) :
    b.entries = (b.key, b.value) :: b.overflow := by
  simp [entries, hlive]

theorem entries_of_deleted {b : Bucket κ ν} (hdeleted : b.deleted = true) :
    b.entries = [] := by
  simp [entries, hdeleted]

theorem find?_finds (keying : Keying α κ) (b : Bucket κ ν) (sought : κ) :
    exists result, keying.Finds sought b.entries result ∧
      (b.find? keying sought).eval = result.map (Option.map Place.ofNat) := by
  unfold find?
  cases hdeleted : b.deleted with
  | true =>
      rw [entries_of_deleted hdeleted]
      exact ⟨.ok none, Keying.Finds.absent Keying.Misses.nil, rfl⟩
  | false =>
      have hoverflow := findOverflow_finds keying sought 0 b.overflow
      simp only [Nat.zero_add] at hoverflow
      rw [entries_of_live hdeleted, if_neg Bool.false_ne_true]
      exact finds_step Place.ofNat (b.key, b.value) hoverflow

end Bucket

end ValueStore
