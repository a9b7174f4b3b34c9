import LinearGrammar.Derivation

/-!
# The last word wins

A view is told of two kinds of events, in any order: edits of the word and answers to checks. What
it shows at the end depends on two of them only. One is the last edit that was accepted; the other
is the first answer after it that carries its number. `WordView.ofHistory` says so without
following the view through the events, and `run_eq_ofHistory` says that following the view comes to
the same.

The proof goes from the first event to the last, one event being put behind a history at a time.
An accepted edit makes everything before it irrelevant: no answer that was given before it counts,
and the number it gets is larger than any that was given out. An answer changes the view in one
case, when the word is not empty and its check has not been answered. In all other cases the
history, read as `ofHistory` reads it, says what it said before.
-/

namespace LinearGrammar

/-- Something a view is told of. -/
inductive WordEvent where
  | edit (text : String)
  | answer (seq : Nat) (outcome : Outcome CheckResponse)
  deriving Repr

namespace WordEvent

/-- The word of an edit that is accepted. -/
def word? : WordEvent → Option String
  | .edit text => if Text.hasBlank text then none else some text
  | .answer _ _ => none

/-- The outcome, if this is an answer to the check with the given number. -/
def outcome? (seq : Nat) : WordEvent → Option (Outcome CheckResponse)
  | .edit _ => none
  | .answer n outcome => if n = seq then some outcome else none

end WordEvent

namespace WordView

/-! ## Following the view -/

/-- The view after an event. An edit that is refused changes nothing. -/
def after (v : WordView) : WordEvent → WordView
  | .edit text =>
    match v.setQuery text with
    | .ok (_, w) => w
    | .error _ => v
  | .answer seq outcome => (v.apply seq outcome).2

def run (v : WordView) (events : List WordEvent) : WordView := events.foldl after v

/-! ## Reading the history -/

/-- How many edits were accepted. -/
def editCount (events : List WordEvent) : Nat := events.countP (·.word?.isSome)

/-- The word of the last accepted edit, and the events after it. -/
def lastEdit? : List WordEvent → Option (String × List WordEvent)
  | [] => none
  | e :: rest =>
    match lastEdit? rest with
    | some found => some found
    | none => e.word?.map fun word => (word, rest)

/-- The outcome of the first answer to the check with the given number. -/
def firstAnswer? (seq : Nat) (events : List WordEvent) : Option (Outcome CheckResponse) :=
  events.findSome? (·.outcome? seq)

/-- What is known of a word, from the events after it was accepted under a number. -/
def verdictSince (seq : Nat) (word : String) (events : List WordEvent) : Verdict :=
  if word = "" then .idle
  else
    match firstAnswer? seq events with
    | none => .pending seq
    | some outcome => .ofOutcome outcome

def ofHistory (events : List WordEvent) : WordView :=
  match lastEdit? events with
  | none => ⟨"", editCount events, .idle⟩
  | some (word, since) =>
    ⟨word, editCount events, verdictSince (editCount events) word since⟩

/-! ## One more event -/

theorem editCount_concat_of_accepted {e : WordEvent} {word : String} (he : e.word? = some word)
    (events : List WordEvent) : editCount (events ++ [e]) = editCount events + 1 := by
  have hone : List.countP (·.word?.isSome) [e] = 1 := by
    rw [List.countP_singleton, he]
    rfl
  rw [editCount, List.countP_append, hone, editCount]

theorem editCount_concat_of_other {e : WordEvent} (he : e.word? = none)
    (events : List WordEvent) : editCount (events ++ [e]) = editCount events := by
  have hnone : List.countP (·.word?.isSome) [e] = 0 := by
    rw [List.countP_singleton, he]
    rfl
  rw [editCount, List.countP_append, hnone, Nat.add_zero, editCount]

theorem lastEdit?_concat_of_accepted {e : WordEvent} {word : String} (he : e.word? = some word)
    (events : List WordEvent) : lastEdit? (events ++ [e]) = some (word, []) := by
  induction events with
  | nil => rw [List.nil_append, lastEdit?, lastEdit?, he]; rfl
  | cons first rest ih => rw [List.cons_append, lastEdit?, ih]

theorem lastEdit?_concat_of_other {e : WordEvent} (he : e.word? = none)
    (events : List WordEvent) :
    lastEdit? (events ++ [e]) =
      (lastEdit? events).map fun found => (found.1, found.2 ++ [e]) := by
  induction events with
  | nil => rw [List.nil_append, lastEdit?, lastEdit?, he]; rfl
  | cons first rest ih =>
      rw [List.cons_append, lastEdit?, ih, lastEdit?]
      cases lastEdit? rest with
      | none => cases first.word? <;> rfl
      | some found => rfl

theorem firstAnswer?_concat (seq : Nat) (events : List WordEvent) (e : WordEvent) :
    firstAnswer? seq (events ++ [e]) = (firstAnswer? seq events).or (e.outcome? seq) := by
  rw [firstAnswer?, List.findSome?_append, firstAnswer?, List.findSome?_singleton]

theorem verdictSince_concat_of_none {seq : Nat} {e : WordEvent} (he : e.outcome? seq = none)
    (word : String) (since : List WordEvent) :
    verdictSince seq word (since ++ [e]) = verdictSince seq word since := by
  rw [verdictSince, firstAnswer?_concat, he, Option.or_none, verdictSince]

/-- An accepted edit makes everything before it irrelevant, but for how many edits there were. -/
theorem ofHistory_concat_of_accepted {e : WordEvent} {word : String} (he : e.word? = some word)
    (events : List WordEvent) :
    ofHistory (events ++ [e]) =
      ⟨word, editCount events + 1, verdictSince (editCount events + 1) word []⟩ := by
  rw [ofHistory, lastEdit?_concat_of_accepted he, editCount_concat_of_accepted he]

/-- An event that neither is an accepted edit nor carries the last number changes nothing. -/
theorem ofHistory_concat_of_other {e : WordEvent} {events : List WordEvent}
    (hword : e.word? = none) (houtcome : e.outcome? (editCount events) = none) :
    ofHistory (events ++ [e]) = ofHistory events := by
  rw [ofHistory, lastEdit?_concat_of_other hword, editCount_concat_of_other hword, ofHistory]
  cases lastEdit? events with
  | none => rfl
  | some found =>
      simp only [Option.map_some]
      rw [verdictSince_concat_of_none houtcome]

/-! ## Answers that count -/

/-- Whether the check with this number is the one of the last accepted word, that word is not
empty, and no answer to it has come. -/
def Awaits (events : List WordEvent) (seq : Nat) : Prop :=
  ∃ word since, lastEdit? events = some (word, since) ∧ word ≠ "" ∧
    seq = editCount events ∧ firstAnswer? seq since = none

theorem latest_ofHistory (events : List WordEvent) :
    (ofHistory events).latest = editCount events := by
  unfold ofHistory
  split <;> rfl

theorem not_isPending_ofOutcome (query : String) (latest : Nat)
    (outcome : Outcome CheckResponse) :
    (WordView.mk query latest (.ofOutcome outcome)).isPending = false := by
  unfold isPending Verdict.ofOutcome
  split
  · next heq =>
      simp only [] at heq
      split at heq
      · cases heq
      · split at heq <;> cases heq
  · rfl

theorem isPending_ofHistory_iff {events : List WordEvent} :
    (ofHistory events).isPending = true ↔ Awaits events (editCount events) := by
  unfold ofHistory Awaits
  cases hlast : lastEdit? events with
  | none => exact ⟨nofun, fun ⟨_, _, h, _⟩ => nomatch h⟩
  | some found =>
      obtain ⟨word, since⟩ := found
      by_cases hempty : word = ""
      · simp [verdictSince, hempty, isPending]
      · cases hfirst : firstAnswer? (editCount events) since with
        | none =>
            simp only [verdictSince, if_neg hempty, hfirst, isPending, true_iff]
            exact ⟨word, since, rfl, hempty, trivial, hfirst⟩
        | some outcome =>
            simp [verdictSince, hempty, hfirst, not_isPending_ofOutcome]

theorem apply_fst_eq_true_iff {v : WordView} {seq : Nat} {outcome : Outcome CheckResponse} :
    (v.apply seq outcome).1 = true ↔ seq = v.latest ∧ v.isPending = true := by
  unfold apply
  split
  · next h => simpa using h
  · next h => simpa using h

theorem apply_snd_of_fst_eq_false {v : WordView} {seq : Nat} {outcome : Outcome CheckResponse}
    (h : (v.apply seq outcome).1 = false) : (v.apply seq outcome).2 = v := by
  unfold apply at h ⊢
  split at h
  · cases h
  · next hnot => rw [if_neg hnot]

theorem apply_ofHistory_fst_iff {events : List WordEvent} {seq : Nat}
    {outcome : Outcome CheckResponse} :
    ((ofHistory events).apply seq outcome).1 = true ↔ Awaits events seq := by
  rw [apply_fst_eq_true_iff, latest_ofHistory, isPending_ofHistory_iff]
  constructor
  · rintro ⟨rfl, h⟩
    exact h
  · rintro ⟨word, since, hlast, hne, rfl, hfirst⟩
    exact ⟨rfl, word, since, hlast, hne, rfl, hfirst⟩

/-! ## The two readings agree -/

theorem after_edit_ofHistory (events : List WordEvent) (text : String) :
    (ofHistory events).after (.edit text) = ofHistory (events ++ [.edit text]) := by
  rw [after, setQuery]
  by_cases hblank : Text.hasBlank text = true
  · have hword : (WordEvent.edit text).word? = none := if_pos hblank
    rw [if_pos hblank, ofHistory_concat_of_other hword rfl]
  · have hword : (WordEvent.edit text).word? = some text := if_neg hblank
    rw [if_neg hblank, ofHistory_concat_of_accepted hword, latest_ofHistory]
    by_cases hempty : text = ""
    · subst hempty
      rfl
    · rw [if_neg fun h => hempty (String.isEmpty_iff.1 h), verdictSince, if_neg hempty]
      rfl

theorem ofHistory_concat_of_not_awaits {events : List WordEvent} {seq : Nat}
    (h : ¬ Awaits events seq) (outcome : Outcome CheckResponse) :
    ofHistory (events ++ [.answer seq outcome]) = ofHistory events := by
  by_cases hseq : seq = editCount events
  · -- The answer has the right number, so there is no word, or it was answered before.
    subst hseq
    rw [ofHistory, lastEdit?_concat_of_other rfl, editCount_concat_of_other rfl, ofHistory]
    cases hlast : lastEdit? events with
    | none => rfl
    | some found =>
        obtain ⟨word, since⟩ := found
        have hsame : verdictSince (editCount events) word
            (since ++ [.answer (editCount events) outcome]) =
              verdictSince (editCount events) word since := by
          unfold verdictSince
          by_cases hempty : word = ""
          · rw [if_pos hempty, if_pos hempty]
          · cases hfirst : firstAnswer? (editCount events) since with
            | none => exact absurd ⟨word, since, hlast, hempty, rfl, hfirst⟩ h
            | some first =>
                rw [firstAnswer?_concat, hfirst]
                rfl
        exact congrArg (WordView.mk word (editCount events)) hsame
  · exact ofHistory_concat_of_other rfl (if_neg fun heq => hseq heq)

theorem ofHistory_concat_of_awaits {events : List WordEvent} {seq : Nat}
    (h : Awaits events seq) (outcome : Outcome CheckResponse) :
    ofHistory (events ++ [.answer seq outcome]) =
      { ofHistory events with verdict := .ofOutcome outcome } := by
  obtain ⟨word, since, hlast, hne, rfl, hfirst⟩ := h
  have hnow : (WordEvent.answer (editCount events) outcome).outcome? (editCount events) =
      some outcome := if_pos rfl
  rw [ofHistory, lastEdit?_concat_of_other rfl, editCount_concat_of_other rfl, ofHistory, hlast]
  simp only [Option.map_some, verdictSince, if_neg hne]
  rw [firstAnswer?_concat, hfirst, hnow]
  rfl

theorem after_answer_ofHistory (events : List WordEvent) (seq : Nat)
    (outcome : Outcome CheckResponse) :
    (ofHistory events).after (.answer seq outcome) =
      ofHistory (events ++ [.answer seq outcome]) := by
  rw [after]
  by_cases h : Awaits events seq
  · have hcounts : ((ofHistory events).apply seq outcome).1 = true :=
      apply_ofHistory_fst_iff.2 h
    rw [ofHistory_concat_of_awaits h]
    unfold apply at hcounts ⊢
    split
    · rfl
    · next hnot => rw [if_neg hnot] at hcounts; cases hcounts
  · rw [ofHistory_concat_of_not_awaits h]
    refine apply_snd_of_fst_eq_false ?_
    rw [← Bool.not_eq_true, apply_ofHistory_fst_iff]
    exact h

theorem after_ofHistory (events : List WordEvent) (e : WordEvent) :
    (ofHistory events).after e = ofHistory (events ++ [e]) := by
  cases e with
  | edit text => exact after_edit_ofHistory events text
  | answer seq outcome => exact after_answer_ofHistory events seq outcome

theorem run_ofHistory (before events : List WordEvent) :
    (ofHistory before).run events = ofHistory (before ++ events) := by
  induction events generalizing before with
  | nil => rw [List.append_nil]; rfl
  | cons e rest ih =>
      rw [run, List.foldl_cons, after_ofHistory, ← run, ih, List.append_assoc]
      rfl

/-- A view that has followed any events is the view that their history tells: the last accepted
word under its number, without a verdict if the word is empty, with the verdict of the first answer
that carries the number if there is one, and waiting if there is none. The next answer counts if
and only if it is that first one, and else it changes nothing; nor does a refused edit. -/
theorem run_eq_ofHistory (events : List WordEvent) :
    initial.run events = ofHistory events ∧
      (∀ seq outcome,
        ((initial.run events).apply seq outcome).1 = true ↔ Awaits events seq) ∧
      (∀ seq outcome, ¬ Awaits events seq →
        ((initial.run events).apply seq outcome).2 = initial.run events) ∧
      ∀ text, Text.hasBlank text = true →
        (initial.run events).setQuery text = .error .blankInWord ∧
          (initial.run events).after (.edit text) = initial.run events := by
  have hrun : initial.run events = ofHistory events := run_ofHistory [] events
  refine ⟨hrun, fun seq outcome => ?_, fun seq outcome h => ?_, fun text hblank => ?_⟩
  · rw [hrun]
    exact apply_ofHistory_fst_iff
  · refine apply_snd_of_fst_eq_false ?_
    rw [← Bool.not_eq_true, hrun, apply_ofHistory_fst_iff]
    exact h
  · have hrefused : (initial.run events).setQuery text = .error .blankInWord := if_pos hblank
    refine ⟨hrefused, ?_⟩
    rw [after, hrefused]

end WordView

end LinearGrammar
