import Mathlib.Tactic.IntervalCases
import ValueStore.Json.Reader
import ValueStore.Json.Writer

/-!
# Reading scalars back

What is written for an integer or a string is read back to it, and the reader stops right
behind it. For an integer that takes a separator or the end of the text behind its digits;
a string ends at its own closing quote.
-/

namespace ValueStore

namespace Json

inductive Separated : List Char -> Prop where
  | nothing : Separated []
  | comma (rest : List Char) : Separated (',' :: rest)
  | bracket (rest : List Char) : Separated (']' :: rest)

/-- The text of an item starts neither with a blank nor with a bracket that would close an array. -/
def IsItem (text : String) : Prop :=
  exists c rest, text.toList = c :: rest ∧ isBlank c = false ∧ c ≠ ']'

theorem skipBlank_cons {c : Char} (hc : isBlank c = false) (rest : List Char) :
    skipBlank (c :: rest) = c :: rest := by
  rw [skipBlank, List.dropWhile_cons_of_neg]
  rw [hc]
  exact Bool.false_ne_true

/-! ## Digits -/

theorem isDigit_digitChar : forall d, d < 10 -> (Nat.digitChar d).isDigit = true := by
  decide

theorem digitValue_digitChar : forall d, d < 10 -> digitValue (Nat.digitChar d) = d := by
  decide

theorem digitChar_ne_zero : forall d, d < 10 -> 0 < d -> Nat.digitChar d ≠ '0' := by
  decide

theorem takeDigits_toDigits {n : Nat} (hn : n < Nat.pow 2 64) (rest : List Char) :
    takeDigits 0 (Nat.toDigits 10 n ++ rest) = takeDigits n rest := by
  induction n using Nat.strong_induction_on generalizing rest with
  | _ n ih =>
      have hstep : forall m d, d < 10 -> m * 10 + d = n ->
          takeDigits m (Nat.digitChar d :: rest) = takeDigits n rest := by
        intro m d hd hmd
        rw [takeDigits, isDigit_digitChar d hd, digitValue_digitChar d hd, hmd]
        simp [hn]
      by_cases hsmall : n < 10
      · rw [Nat.toDigits_of_lt_base hsmall]
        exact hstep 0 n hsmall (by rw [Nat.zero_mul, Nat.zero_add])
      · have hlarge : 10 ≤ n := Nat.le_of_not_lt hsmall
        rw [Nat.toDigits_of_base_le (by decide) hlarge, List.append_assoc, List.singleton_append,
          ih (n / 10) (by omega) (by omega)]
        exact hstep (n / 10) (n % 10) (Nat.mod_lt n (by decide)) (by omega)

theorem toDigits_eq_cons {n : Nat} (hn : 0 < n) :
    exists c rest, Nat.toDigits 10 n = c :: rest ∧ c.isDigit = true ∧ c ≠ '0' := by
  induction n using Nat.strong_induction_on with
  | _ n ih =>
      by_cases hsmall : n < 10
      · rw [Nat.toDigits_of_lt_base hsmall]
        exact ⟨_, [], rfl, isDigit_digitChar n hsmall, digitChar_ne_zero n hsmall hn⟩
      · have hlarge : 10 ≤ n := Nat.le_of_not_lt hsmall
        rcases ih (n / 10) (by omega) (by omega) with ⟨c, rest, hdigits, hdigit, hzero⟩
        rw [Nat.toDigits_of_base_le (by decide) hlarge, hdigits]
        exact ⟨c, _, List.cons_append, hdigit, hzero⟩

theorem Separated.startsWithDigit {rest : List Char} (h : Separated rest) :
    startsWithDigit rest = false := by
  cases h <;> rfl

theorem takeDigits_of_separated (n : Nat) {rest : List Char} (h : Separated rest) :
    takeDigits n rest = (n, rest) := by
  cases h <;> rfl

theorem afterDigits_of_separated (negative : Bool) (n : Nat) {rest : List Char}
    (h : Separated rest) :
    afterDigits negative n rest = .ok (signedNumeral negative n, rest) := by
  cases h <;> rfl

theorem numeral_toDigits (negative : Bool) {n : Nat} (hn : n < Nat.pow 2 64) {rest : List Char}
    (h : Separated rest) :
    numeral negative (Nat.toDigits 10 n ++ rest) = .ok (signedNumeral negative n, rest) := by
  by_cases hzero : n = 0
  · rw [hzero]
    show (if startsWithDigit rest then .error .malformed else afterDigits negative 0 rest) = _
    rw [h.startsWithDigit]
    exact afterDigits_of_separated negative 0 h
  · rcases toDigits_eq_cons (Nat.pos_of_ne_zero hzero) with ⟨c, digits, hdigits, hdigit, hc⟩
    have htake := takeDigits_toDigits hn rest
    rw [takeDigits_of_separated n h] at htake
    rw [hdigits, List.cons_append] at htake ⊢
    unfold numeral
    split
    · rename_i heq
      cases heq
    · rename_i heq
      cases heq
      exact absurd rfl hc
    · rename_i text _hnil _hzero
      have hstart : startsWithDigit (c :: (digits ++ rest)) = true := hdigit
      rw [hstart, if_pos rfl, htake]
      exact afterDigits_of_separated negative n h

/-! ## Integers -/

theorem isBlank_of_isDigit {c : Char} (hc : c.isDigit = true) :
    isBlank c = false := by
  rw [isBlank, Bool.or_eq_false_iff, Bool.or_eq_false_iff, Bool.or_eq_false_iff]
  refine ⟨⟨⟨?_, ?_⟩, ?_⟩, ?_⟩ <;>
    · rw [beq_eq_false_iff_ne]
      rintro rfl
      cases hc

theorem exists_digit_cons (n : Nat) :
    exists c rest, Nat.toDigits 10 n = c :: rest ∧ c.isDigit = true := by
  cases hdigits : Nat.toDigits 10 n with
  | nil =>
      exact absurd hdigits Nat.toDigits_ne_nil
  | cons c rest =>
      have hmem : c ∈ Nat.toDigits 10 n := by
        rw [hdigits]
        exact List.mem_cons_self
      exact ⟨c, rest, rfl, Nat.isDigit_of_mem_toDigits (by decide) (by decide) hmem⟩

theorem read_toDigits {n : Nat} (hn : n < Nat.pow 2 64) {lower upper : Int}
    (hlower : lower ≤ n) (hupper : (n : Int) ≤ upper) {rest : List Char} (h : Separated rest) :
    Reader.integer lower upper (Nat.toDigits 10 n ++ rest) = .ok ((n : Int), rest) := by
  have hnumeral := numeral_toDigits false hn h
  rcases exists_digit_cons n with ⟨c, digits, hdigits, hdigit⟩
  rw [hdigits, List.cons_append] at hnumeral ⊢
  unfold Reader.integer
  rw [skipBlank_cons (isBlank_of_isDigit hdigit)]
  have hstart : startsWithDigit (c :: (digits ++ rest)) = true := hdigit
  split
  · rename_i heq
    cases heq
  · rename_i heq
    cases heq
    cases hdigit
  · rw [if_pos hstart, hnumeral]
    show (if lower ≤ (n : Int) ∧ (n : Int) ≤ upper then _ else _) = _
    rw [if_pos ⟨hlower, hupper⟩]

theorem read_neg_toDigits {n : Nat} (hpos : 0 < n) (hn : n ≤ Nat.pow 2 63) {lower upper : Int}
    (hlower : lower ≤ -(n : Int)) (hupper : -(n : Int) ≤ upper) {rest : List Char}
    (h : Separated rest) :
    Reader.integer lower upper ('-' :: (Nat.toDigits 10 n ++ rest)) = .ok (-(n : Int), rest) := by
  have hfits : n < Nat.pow 2 64 := Nat.lt_of_le_of_lt hn (by decide)
  have hsigned : signedNumeral true n = .integer (-(n : Int)) := by
    unfold signedNumeral
    rw [if_pos rfl, if_neg]
    omega
  unfold Reader.integer
  rw [skipBlank_cons rfl]
  split
  · rename_i heq
    cases heq
  · rename_i heq
    cases heq
    rw [numeral_toDigits true hfits h, hsigned]
    show (if lower ≤ -(n : Int) ∧ -(n : Int) ≤ upper then _ else _) = _
    rw [if_pos ⟨hlower, hupper⟩]
  · rename_i hsign
    exact absurd rfl (hsign _)

theorem toList_integer (n : Int64) :
    (exists m : Nat, n.toInt = m ∧ (integer n).toList = Nat.toDigits 10 m) ∨
      exists m : Nat, 0 < m ∧ n.toInt = -(m : Int) ∧
        (integer n).toList = '-' :: Nat.toDigits 10 m := by
  have hdigits : forall m : Nat, (Nat.repr m).toList = Nat.toDigits 10 m := by
    intro m
    rw [Nat.repr_eq_ofList_toDigits, String.toList_ofList]
  unfold integer
  cases hn : n.toInt with
  | ofNat m =>
      exact Or.inl ⟨m, rfl, hdigits m⟩
  | negSucc m =>
      refine Or.inr ⟨m + 1, Nat.succ_pos m, rfl, ?_⟩
      show ("-" ++ Nat.repr (m + 1)).toList = _
      rw [String.toList_append, hdigits]
      rfl

theorem isItem_integer (n : Int64) :
    IsItem (integer n) := by
  rcases toList_integer n with ⟨m, _hm, htext⟩ | ⟨m, _hpos, _hm, htext⟩
  · rcases exists_digit_cons m with ⟨c, rest, hdigits, hdigit⟩
    refine ⟨c, rest, htext.trans hdigits, isBlank_of_isDigit hdigit, ?_⟩
    rintro rfl
    cases hdigit
  · exact ⟨'-', _, htext, rfl, by decide⟩

theorem read_int64 (n : Int64) {rest : List Char} (h : Separated rest) :
    Reader.int64 ((integer n).toList ++ rest) = .ok (n, rest) := by
  have hlower := n.le_toInt
  have hupper := n.toInt_lt
  have hread : Reader.integer (-Int.pow 2 63) (Int.pow 2 63 - 1) ((integer n).toList ++ rest) =
      .ok (n.toInt, rest) := by
    rcases toList_integer n with ⟨m, hm, htext⟩ | ⟨m, hpos, hm, htext⟩
    · rw [htext, hm]
      rw [hm] at hlower hupper
      have hfits : m < 2 ^ 64 := by
        omega
      exact read_toDigits hfits hlower (Int.le_sub_one_of_lt hupper) h
    · rw [htext, hm]
      rw [hm] at hlower hupper
      have hfits : m ≤ 2 ^ 63 := by
        omega
      exact read_neg_toDigits hpos hfits hlower (Int.le_sub_one_of_lt hupper) h
  unfold Reader.int64
  rw [hread]
  show Except.ok (Int64.ofInt n.toInt, rest) = _
  rw [Int64.ofInt_toInt]

/-! ## Strings -/

theorem hexValue?_digitChar : forall d, d < 16 -> hexValue? (Nat.digitChar d) = some d := by
  decide

theorem utf8Size_digitChar : forall d, d < 16 -> (Nat.digitChar d).utf8Size = 1 := by
  decide

theorem hexEscape_digits {high low : Nat} (hhigh : high < 16) (hlow : low < 16)
    (rest : List Char) :
    hexEscape ('0' :: '0' :: Nat.digitChar high :: Nat.digitChar low :: rest) =
      .ok (high * 16 + low, rest) := by
  have hsize : (('0' :: '0' :: Nat.digitChar high :: Nat.digitChar low :: rest).take 4).foldl
      (fun size c => size + c.utf8Size) 0 = 4 := by
    show 0 + '0'.utf8Size + '0'.utf8Size + (Nat.digitChar high).utf8Size +
      (Nat.digitChar low).utf8Size = 4
    rw [utf8Size_digitChar high hhigh, utf8Size_digitChar low hlow]
    rfl
  unfold hexEscape
  rw [hsize, if_neg (Nat.lt_irrefl 4)]
  dsimp only
  rw [hexValue?_digitChar high hhigh, hexValue?_digitChar low hlow]
  show Except.ok (0 * 4096 + 0 * 256 + high * 16 + low, rest) = _
  rw [Nat.zero_mul, Nat.zero_add]

theorem controlEscape_ofNat : forall code, code < 0x20 ->
    controlEscape (Char.ofNat code) =
      ['\\', 'u', '0', '0', Nat.digitChar (code / 16), Nat.digitChar (code % 16)] := by
  decide

theorem unicodeEscape_of_lt {text rest : List Char} {code : Nat}
    (hread : hexEscape text = .ok (code, rest)) (hcode : code < 0xd800) :
    unicodeEscape text = .ok (Char.ofNat code, rest) := by
  unfold unicodeEscape
  rw [hread]
  show (if 0xdc00 ≤ code ∧ code ≤ 0xdfff then throw .malformed
    else if 0xd800 ≤ code ∧ code ≤ 0xdbff then trailingSurrogate code rest
    else return (Char.ofNat code, rest) : Except ReadError (Char × List Char)) = _
  rw [if_neg (by omega), if_neg (by omega)]
  rfl

/-- How one character is read back in the middle of a string. -/
inductive ReadsChar (c : Char) : List Char -> Prop where
  | plain : c ≠ '"' -> c ≠ '\\' -> 0x20 ≤ c.toNat -> ReadsChar c [c]
  | escaped {text : List Char} :
      (forall rest, escape (text ++ rest) = .ok (c, rest)) -> ReadsChar c ('\\' :: text)

theorem readsChar_controlEscape {c : Char} (hc : c.toNat < 0x20) :
    ReadsChar c (controlEscape c) := by
  have hwritten := controlEscape_ofNat c.toNat hc
  rw [Char.ofNat_toNat] at hwritten
  rw [hwritten]
  apply ReadsChar.escaped
  intro rest
  have hhigh : c.toNat / 16 < 16 := by
    omega
  have hread := hexEscape_digits hhigh (Nat.mod_lt c.toNat (by decide)) rest
  rw [Nat.div_add_mod'] at hread
  have hescape := unicodeEscape_of_lt hread (by omega)
  rw [Char.ofNat_toNat] at hescape
  exact hescape

theorem readsChar_stringChar (c : Char) :
    ReadsChar c (stringChar c) := by
  unfold stringChar
  split
  · exact ReadsChar.escaped fun _ => rfl
  · exact ReadsChar.escaped fun _ => rfl
  · exact ReadsChar.escaped fun _ => rfl
  · exact ReadsChar.escaped fun _ => rfl
  · exact ReadsChar.escaped fun _ => rfl
  · exact ReadsChar.escaped fun _ => rfl
  · exact ReadsChar.escaped fun _ => rfl
  · rename_i hquote hbackslash _ _ _ _ _
    split
    · rename_i hcontrol
      exact readsChar_controlEscape hcontrol
    · rename_i hplain
      exact ReadsChar.plain hquote hbackslash (Nat.le_of_not_lt hplain)

theorem ReadsChar.length_pos {c : Char} {text : List Char} (h : ReadsChar c text) :
    0 < text.length := by
  cases h <;> exact Nat.succ_pos _

theorem ReadsChar.stringBody {c : Char} {text : List Char} (h : ReadsChar c text) (bound : Nat)
    (written rest : List Char) :
    stringBody (bound + 1) written (text ++ rest) = stringBody bound (c :: written) rest := by
  cases h with
  | plain hquote hbackslash hcode =>
      rw [List.singleton_append]
      conv_lhs => unfold Json.stringBody
      split
      · rename_i heq
        cases heq
      · rename_i heq
        cases heq
      · rename_i heq
        cases heq
        exact absurd rfl hquote
      · rename_i heq
        cases heq
        exact absurd rfl hbackslash
      · rename_i heq
        cases heq
        cases ‹bound + 1 = _›
        rw [if_neg (Nat.not_lt.mpr hcode)]
  | @escaped text hescape =>
      show (escape (text ++ rest) >>= fun reading =>
        Json.stringBody bound (reading.1 :: written) reading.2) = _
      rw [hescape]
      rfl

theorem stringBody_flatMap {bound : Nat} {cs : List Char} (hbound : cs.length < bound)
    (written rest : List Char) :
    stringBody bound written (cs.flatMap stringChar ++ '"' :: rest) =
      .ok (String.ofList (written.reverse ++ cs), rest) := by
  induction cs generalizing bound written with
  | nil =>
      cases bound with
      | zero =>
          cases hbound
      | succ bound =>
          rw [List.append_nil]
          rfl
  | cons c cs ih =>
      cases bound with
      | zero =>
          cases hbound
      | succ bound =>
          rw [List.flatMap_cons, List.append_assoc, (readsChar_stringChar c).stringBody,
            ih (Nat.lt_of_succ_lt_succ hbound), List.reverse_cons, List.append_assoc,
            List.singleton_append]

theorem length_le_flatMap_stringChar (cs : List Char) :
    cs.length ≤ (cs.flatMap stringChar).length := by
  induction cs with
  | nil =>
      exact Nat.le_refl _
  | cons c cs ih =>
      rw [List.flatMap_cons, List.length_append, List.length_cons]
      have hpos := (readsChar_stringChar c).length_pos
      omega

theorem read_string (s : String) (rest : List Char) :
    Reader.string ((Json.string s).toList ++ rest) = .ok (s, rest) := by
  have hbound : s.toList.length <
      (s.toList.flatMap stringChar ++ '"' :: rest).length + 1 := by
    have hle := length_le_flatMap_stringChar s.toList
    rw [List.length_append]
    omega
  rw [Json.string, String.toList_ofList, List.cons_append, List.append_assoc,
    List.singleton_append]
  show stringBody _ [] (s.toList.flatMap stringChar ++ '"' :: rest) = _
  rw [stringBody_flatMap hbound, List.reverse_nil, List.nil_append, String.ofList_toList]

theorem isItem_string (s : String) :
    IsItem (Json.string s) :=
  ⟨'"', _, String.toList_ofList, rfl, by decide⟩

end Json

end ValueStore
