import LinearGrammar.Proofs.DepthText
import LinearGrammar.Proofs.JsonText

/-!
# Integers of 64 bits are read as they were written

A number is written as a run of digits, with a minus sign in front or none, and nothing tells a reader
that it is over but what comes next. So the automaton is followed through the digits, and its token is
looked at where the number ends.

The token's value is worked out from the text again. The digits are taken into a significand as long as
it fits into a word, and here all of them are taken: with a word's worth of digits, no beginning of them
is worth more. Then there is no exponent, nothing to drop and nothing to round, and the number
is an integer, unless it is a negative one below the least that a signed word can hold, or a zero with
a minus sign, which no integer is written as.
-/

namespace LinearGrammar

/-- A number that is held as a 64-bit integer, signed or unsigned. -/
def Number.IsWord : Number → Prop
  | .int n => -(Nat.pow 2 63) ≤ n ∧ n < Nat.pow 2 64
  | .real _ => False

instance : DecidablePred Number.IsWord
  | .int _ => inferInstanceAs (Decidable (_ ∧ _))
  | .real _ => .isFalse id

namespace Numeral

open Text

/-! ## The value of a run of digits -/

theorem le_foldl_digits (digits : List Char) (significand : Nat) :
    significand ≤ digits.foldl (fun value c => value * 10 + digitValue c) significand := by
  induction digits generalizing significand with
  | nil => exact Nat.le_refl _
  | cons c rest ih =>
      rw [List.foldl_cons]
      have := ih (significand * 10 + digitValue c)
      omega

/-- All digits are taken if their value fits. -/
theorem take_eq {digits : List Char} {significand : Nat}
    (h : digits.foldl (fun value c => value * 10 + digitValue c) significand < wordLimit) :
    take significand digits =
      (digits.foldl (fun value c => value * 10 + digitValue c) significand, digits.length) := by
  induction digits generalizing significand with
  | nil => rfl
  | cons c rest ih =>
      rw [List.foldl_cons] at h ⊢
      have hnext := Nat.lt_of_le_of_lt (le_foldl_digits rest _) h
      rw [take, if_pos hnext, ih h]
      rfl

theorem ofText_digits {digits : List Char} (h : ∀ c ∈ digits, c.isDigit = true) :
    ofText digits = ⟨false, digits, [], false, [], false⟩ ∧
      ofText ('-' :: digits) = ⟨true, digits, [], false, [], false⟩ := by
  have htake : digits.takeWhile Char.isDigit = digits := List.takeWhile_eq_self_iff.2 h
  have hdrop : digits.dropWhile Char.isDigit = [] := List.dropWhile_eq_nil_iff.2 h
  constructor
  · cases digits with
    | nil => rfl
    | cons c rest =>
        have hminus : c ≠ '-' := by
          rintro rfl
          exact absurd (h '-' List.mem_cons_self) (by decide)
        unfold ofText
        split
        · next heq =>
            split at heq
            · next hcs => exact absurd (List.cons.inj hcs).1 hminus
            · cases heq
              simp only [htake, hdrop]
  · simp only [ofText, htake, hdrop]

variable {digits : List Char} {n : Nat}

theorem number?_natural (hvalue : digitsValue digits = n) (hn : n < wordLimit) :
    (⟨false, digits, [], false, [], false⟩ : Numeral).number? = some (.int n) := by
  rw [digitsValue] at hvalue
  have htake : take 0 digits = (n, digits.length) := by
    rw [take_eq (by rw [hvalue]; exact hn), hvalue]
  simp [number?, htake]

theorem number?_negative (hvalue : digitsValue digits = n) (hpos : 0 < n) (hn : n ≤ Nat.pow 2 63) :
    (⟨true, digits, [], false, [], false⟩ : Numeral).number? = some (.int (-n)) := by
  have hlimit : Nat.pow 2 63 < wordLimit := by decide
  have hword : n < wordLimit := by omega
  rw [digitsValue] at hvalue
  have htake : take 0 digits = (n, digits.length) := by
    rw [take_eq (by rw [hvalue]; exact hword), hvalue]
  have hno : ¬ (n = 0 ∨ Nat.pow 2 63 < n) := by omega
  simp [number?, htake, hno]

end Numeral

namespace Json

open Text

/-! ## The token of a run of digits -/

variable {first : Char} {digits rest : List Char}

/-- How far a number has been read after its first digit. -/
def firstPhase (first : Char) : NumberPhase := if first = '0' then .zero else .whole

/-- The ten digits are told apart from everything else that may begin a token. -/
theorem start_digitChar : ∀ n < 10, Scan.start (Nat.digitChar n) =
    (.number (firstPhase (Nat.digitChar n)) [Nat.digitChar n], []) := by
  decide

theorem exists_eq_digitChar {c : Char} (hc : c.isDigit = true) : ∃ n < 10, c = Nat.digitChar n := by
  obtain ⟨hlt, hdigits⟩ := toDigits_digitValue hc
  rw [Nat.toDigits_of_lt_base hlt] at hdigits
  exact ⟨digitValue c, hlt, (List.cons.inj hdigits).1.symm⟩

theorem start_digit (hfirst : first.isDigit = true) :
    Scan.start first = (.number (firstPhase first) [first], []) := by
  obtain ⟨n, hn, rfl⟩ := exists_eq_digitChar hfirst
  exact start_digitChar n hn

theorem step_minus_digit (hfirst : first.isDigit = true) (reversed : List Char) :
    Scan.step (.number .minus reversed) first =
      (.number (firstPhase first) (first :: reversed), []) := by
  by_cases hzero : first = '0'
  · subst hzero
    rfl
  · simp [Scan.step, NumberPhase.step, firstPhase, hzero, hfirst]

theorem tokens_digits (hdigits : ∀ c ∈ digits, c.isDigit = true) (reversed rest : List Char) :
    Scan.tokens (.number .whole reversed) (digits ++ rest) =
      Scan.tokens (.number .whole (digits.reverse ++ reversed)) rest := by
  induction digits generalizing reversed with
  | nil => rfl
  | cons c digits ih =>
      obtain ⟨hc, hdigits⟩ := List.forall_mem_cons.1 hdigits
      rw [List.cons_append, Scan.tokens, Scan.step, NumberPhase.step, if_pos hc]
      simp only [List.nil_append]
      rw [ih hdigits, List.reverse_cons, List.append_assoc, List.singleton_append]

/-- What ends a number ends it after a zero and after any other whole number. -/
theorem tokens_number_end {phase : NumberPhase} (hphase : phase = .zero ∨ phase = .whole)
    (hrest : EndsNumber rest) (reversed : List Char) :
    Scan.tokens (.number phase reversed) rest =
      numberToken reversed :: Scan.tokens .between rest := by
  cases rest with
  | nil => rcases hphase with rfl | rfl <;> rfl
  | cons c rest =>
      have hstop : phase.step c = .stop := by
        rcases hphase with rfl | rfl <;> rcases hrest c rfl with rfl | rfl | rfl | rfl <;> rfl
      rw [Scan.tokens, Scan.step, hstop, Scan.tokens, Scan.step]
      rfl

/-- A whole number is read to its end, if it has no zero in front. -/
theorem tokens_firstPhase (hdigits : ∀ c ∈ digits, c.isDigit = true)
    (hzero : first = '0' → digits = []) (hrest : EndsNumber rest) (reversed : List Char) :
    Scan.tokens (.number (firstPhase first) reversed) (digits ++ rest) =
      numberToken (digits.reverse ++ reversed) :: Scan.tokens .between rest := by
  by_cases hfirst : first = '0'
  · rw [hzero hfirst, firstPhase, if_pos hfirst]
    exact tokens_number_end (.inl rfl) hrest reversed
  · rw [firstPhase, if_neg hfirst, tokens_digits hdigits]
    exact tokens_number_end (.inr rfl) hrest _

/-! ## The digits of a natural -/

theorem head?_toDigits {n : Nat} (hn : 0 < n) : (Nat.toDigits 10 n).head? ≠ some '0' := by
  induction n using Nat.strongRecOn with
  | ind n ih =>
      rw [Nat.toDigits_eq_if (by omega)]
      split
      · next hlt =>
          rw [List.head?_cons, Ne, Option.some.injEq, Nat.digitChar_eq_zero]
          omega
      · next hge =>
          have hhead := ih (n / 10) (by omega) (by omega)
          rwa [List.head?_append_of_ne_nil _ Nat.toDigits_ne_nil]

/-- The digits of a natural begin with a zero only if there is nothing else. -/
theorem exists_toDigits_eq_cons (n : Nat) : ∃ first digits, Nat.toDigits 10 n = first :: digits ∧
    first.isDigit = true ∧ (∀ c ∈ digits, c.isDigit = true) ∧ (first = '0' → digits = []) := by
  obtain ⟨first, digits, hcons⟩ := List.exists_cons_of_ne_nil (Nat.toDigits_ne_nil (n := n) (b := 10))
  have hall : ∀ c ∈ first :: digits, c.isDigit = true := fun c hc =>
    Nat.isDigit_of_mem_toDigits (by decide) (by decide) (hcons ▸ hc)
  obtain ⟨hfirst, hdigits⟩ := List.forall_mem_cons.1 hall
  refine ⟨first, digits, hcons, hfirst, hdigits, fun hzero => ?_⟩
  rcases Nat.eq_zero_or_pos n with rfl | hpos
  · rw [Nat.toDigits_zero] at hcons
    exact (List.cons.inj hcons).2.symm
  · have hhead := head?_toDigits hpos
    rw [hcons, hzero] at hhead
    exact absurd rfl hhead

end Json

namespace Number

open Json

/-! ## Integers -/

/-- The digits of a natural, behind a minus sign or not. -/
theorem number?_toDigits (n : Nat) :
    (n < Text.wordLimit → (Numeral.ofText (Nat.toDigits 10 n)).number? = some (.int n)) ∧
    (0 < n → n ≤ Nat.pow 2 63 →
      (Numeral.ofText ('-' :: Nat.toDigits 10 n)).number? = some (.int (-n))) := by
  have hdigits : ∀ c ∈ Nat.toDigits 10 n, c.isDigit = true := fun c hc =>
    Nat.isDigit_of_mem_toDigits (by decide) (by decide) hc
  have hvalue : Text.digitsValue (Nat.toDigits 10 n) = n := by
    rw [Text.digitsValue_eq, Nat.ofDigitChars_ten_toDigits]
  obtain ⟨hplain, hminus⟩ := Numeral.ofText_digits hdigits
  rw [hplain, hminus]
  exact ⟨Numeral.number?_natural hvalue, Numeral.number?_negative hvalue⟩

theorem isLegible_of_isWord {n : Number} (hn : n.IsWord) : n.IsLegible := by
  intro rest hrest
  cases n with
  | real x => exact hn.elim
  | int k =>
      obtain ⟨hlow, hhigh⟩ := hn
      cases k with
      | ofNat n =>
          obtain ⟨first, digits, hcons, hfirst, hdigits, hzero⟩ := exists_toDigits_eq_cons n
          have hread := (number?_toDigits n).1 (Int.ofNat_lt.1 hhigh)
          rw [text, hcons, List.cons_append, Scan.tokens, Scan.step, start_digit hfirst]
          simp only [List.nil_append]
          rw [tokens_firstPhase hdigits hzero hrest, numberToken, List.reverse_append,
            List.reverse_reverse, List.reverse_singleton, List.singleton_append, ← hcons, hread]
          rfl
      | negSucc n =>
          obtain ⟨first, digits, hcons, hfirst, hdigits, hzero⟩ := exists_toDigits_eq_cons (n + 1)
          have hread := (number?_toDigits (n + 1)).2 (by omega) (by omega)
          have hstart : Scan.start '-' = (.number .minus ['-'], []) := rfl
          rw [text, hcons, List.cons_append, List.cons_append, Scan.tokens, Scan.step, hstart]
          simp only [List.nil_append]
          rw [Scan.tokens, step_minus_digit hfirst]
          simp only [List.nil_append]
          rw [tokens_firstPhase hdigits hzero hrest, numberToken, List.reverse_append,
            List.reverse_reverse]
          change Token.num (Numeral.ofText ('-' :: first :: digits)).number? :: _ = _
          rw [← hcons, hread]
          rfl

end Number

end LinearGrammar
