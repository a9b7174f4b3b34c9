import LinearGrammar.Proofs.Traffic

/-!
# The ledger of the checks

What holds all the time in a session is kept like a ledger. For each number given out to an edit,
count the checks with that number that are outstanding, those that were called off and have not ended,
the answers in the queue and the verdicts that were printed. A step moves a number from one of the
four places to another, or out of the ledger, or enters a number that was never used. So the sum of
the four is never more than one.

For the number of the last edit it is exactly one if there is a word, because only numbers of earlier
edits leave the ledger. A check that was called off belongs to an earlier edit, and so does an answer
that is dropped. For the answer this is where the view comes in: one with the last number would be
dropped only if a verdict had been printed already, and that would make two.
-/

namespace LinearGrammar

namespace LiveSession

open SessionEvent (history verdicts history_concat history_concat_of_none verdicts_concat)

/-! ## The ledger -/

/-- How many checks with a number are outstanding. -/
def outstanding (x : LiveSession) (seq : Nat) : Nat :=
  (x.session.inFlight.toList.map (·.seq)).count seq

/-- How many checks with a number were called off and have not come to an end. -/
def lingering (x : LiveSession) (seq : Nat) : Nat := (x.calledOff.map (·.seq)).count seq

def queued (x : LiveSession) (seq : Nat) : Nat := (x.session.replies.map (·.seq)).count seq

/-- How often a number is on its way. -/
def held (x : LiveSession) (seq : Nat) : Nat :=
  x.outstanding seq + x.lingering seq + x.queued seq

/-- How often a number stands in the ledger. -/
def entries (events : List SessionEvent) (x : LiveSession) (seq : Nat) : Nat :=
  x.held seq + verdicts events seq

/-- The books are in order. -/
structure Accounted (events : List SessionEvent) (x : LiveSession) : Prop where
  view : x.session.view = WordView.ofHistory (history events)
  /-- Nothing but the word under test is being checked. -/
  inFlight : ∀ ticket, x.session.inFlight = some ticket →
    ticket = ⟨x.session.view.latest, x.session.view.query⟩
  calledOff : x.lingering x.session.view.latest = 0
  once : ∀ seq, entries events x seq ≤ 1
  unused : ∀ seq, x.session.view.latest < seq → entries events x seq = 0
  last : entries events x x.session.view.latest = if x.session.view.query = "" then 0 else 1
  pending : x.session.view.isPending = true ↔
    x.session.view.query ≠ "" ∧ verdicts events x.session.view.latest = 0

theorem accounted_opening (g : Grammar) : Accounted [] (opening g) where
  view := rfl
  inFlight _ h := nomatch h
  calledOff := rfl
  once _ := Nat.zero_le 1
  unused _ _ := rfl
  last := rfl
  pending := ⟨nofun, fun h => absurd rfl h.1⟩

section Steps

variable {events : List SessionEvent} {x y : LiveSession}

/-- A step that leaves the view and the verdicts as they are. It may move a number to the queue, and
it may strike out a number of an earlier edit. -/
theorem Accounted.moved {e : SessionEvent} (h : Accounted events x)
    (hhistory : WordView.ofHistory (history (events ++ [e])) = WordView.ofHistory (history events))
    (hverdict : e.verdict? = none) (hview : y.session.view = x.session.view)
    (hinFlight : ∀ ticket, y.session.inFlight = some ticket → x.session.inFlight = some ticket)
    (hlingering : ∀ seq, y.lingering seq ≤ x.lingering seq)
    (hheld : ∀ seq, y.held seq ≤ x.held seq)
    (hlast : y.held x.session.view.latest = x.held x.session.view.latest) :
    Accounted (events ++ [e]) y := by
  have hverdicts : ∀ seq, verdicts (events ++ [e]) seq = verdicts events seq := by
    intro seq
    rw [verdicts_concat, hverdict]
    rfl
  have hentries : ∀ seq, entries (events ++ [e]) y seq ≤ entries events x seq := by
    intro seq
    rw [entries, entries, hverdicts]
    exact Nat.add_le_add_right (hheld seq) _
  refine ⟨?_, ?_, ?_, ?_, ?_, ?_, ?_⟩
  · rw [hview, hhistory, h.view]
  · intro ticket hticket
    rw [hview]
    exact h.inFlight ticket (hinFlight ticket hticket)
  · rw [hview]
    exact Nat.le_zero.1 (h.calledOff ▸ hlingering _)
  · exact fun seq => Nat.le_trans (hentries seq) (h.once seq)
  · intro seq hseq
    rw [hview] at hseq
    exact Nat.le_zero.1 (h.unused seq hseq ▸ hentries seq)
  · rw [hview, ← h.last, entries, entries, hverdicts, hlast]
  · rw [hview, hverdicts, h.pending]

/-! ### Commands -/

theorem Accounted.command {c : Command} {lines : List String} {s : Session}
    (h : Accounted events x) (hc : ∀ text, c ≠ .word text)
    (hrun : (x.session.execute c).Yields (lines, s)) :
    Accounted (events ++ [.ran c lines]) ⟨s, x.calledOff ++ x.session.calledOffBy c⟩ := by
  have hsame : x.session.SameWord s := Session.sameWord_execute hc hrun
  have hheld : ∀ seq, held ⟨s, x.calledOff⟩ seq = x.held seq := by
    intro seq
    simp only [held, outstanding, lingering, queued, hsame.inFlight, hsame.replies]
  have hhistory : history (events ++ [.ran c lines]) = history events :=
    history_concat_of_none (SessionEvent.wordEvent?_ran_of_other hc lines) events
  rw [Session.calledOffBy_of_other hc, List.append_nil]
  exact h.moved (by rw [hhistory]) rfl hsame.view
    (fun ticket hticket => hsame.inFlight ▸ hticket) (fun _ => Nat.le_refl _)
    (fun seq => Nat.le_of_eq (hheld seq)) (hheld _)

theorem Accounted.refusedWord {text : String} {e : EditError} (h : Accounted events x)
    (hword : x.session.view.setQuery text = .error e) (lines : List String) :
    Accounted (events ++ [.ran (.word text) lines]) x := by
  have hrefused : (WordEvent.edit text).word? = none :=
    if_pos (WordView.hasBlank_of_refused hword)
  refine h.moved ?_ rfl rfl (fun _ => id) (fun _ => Nat.le_refl _) (fun _ => Nat.le_refl _) rfl
  rw [history_concat]
  exact WordView.ofHistory_concat_of_other hrefused rfl

/-- The session with another word, the check of the old one being called off. -/
def replaceWord (x : LiveSession) (ticket : Option Ticket) (view : WordView) : LiveSession :=
  ⟨{ x.session with view := view, inFlight := ticket }, x.calledOff ++ x.session.inFlight.toList⟩

theorem verdicts_ran (events : List SessionEvent) (c : Command) (lines : List String)
    (seq : Nat) : verdicts (events ++ [.ran c lines]) seq = verdicts events seq :=
  verdicts_concat events _ seq

theorem lingering_replaceWord (x : LiveSession) (ticket : Option Ticket) (view : WordView)
    (seq : Nat) :
    (x.replaceWord ticket view).lingering seq = x.lingering seq + x.outstanding seq := by
  rw [lingering, replaceWord, List.map_append, List.count_append, lingering, outstanding]

theorem held_replaceWord {text : String} {ticket : Option Ticket}
    (hticket : ticket = if text = "" then none else some ⟨x.session.view.latest + 1, text⟩)
    (view : WordView) (seq : Nat) :
    (x.replaceWord ticket view).held seq =
      x.held seq + if x.session.view.latest + 1 = seq ∧ text ≠ "" then 1 else 0 := by
  have hout : (x.replaceWord ticket view).outstanding seq =
      if x.session.view.latest + 1 = seq ∧ text ≠ "" then 1 else 0 := by
    subst hticket
    by_cases hempty : text = ""
    · simp [outstanding, replaceWord, hempty]
    · simp [outstanding, replaceWord, hempty, List.count_singleton]
  have hqueued : (x.replaceWord ticket view).queued seq = x.queued seq := rfl
  rw [held, hout, lingering_replaceWord, hqueued, held]
  omega

theorem entries_replaceWord {text : String} {ticket : Option Ticket}
    (hticket : ticket = if text = "" then none else some ⟨x.session.view.latest + 1, text⟩)
    (events : List SessionEvent) (lines : List String) (view : WordView) (seq : Nat) :
    entries (events ++ [.ran (.word text) lines]) (x.replaceWord ticket view) seq =
      entries events x seq + if x.session.view.latest + 1 = seq ∧ text ≠ "" then 1 else 0 := by
  rw [entries, entries, verdicts_ran, held_replaceWord hticket]
  omega

theorem ofHistory_ran_word {v view : WordView} {text : String} {ticket : Option Ticket}
    (hv : v = WordView.ofHistory (history events)) (hword : v.setQuery text = .ok (ticket, view))
    (lines : List String) :
    view = WordView.ofHistory (history (events ++ [.ran (.word text) lines])) := by
  have hafter : v.after (.edit text) = view := by
    rw [WordView.after, hword]
  rw [history_concat, ← hafter, hv]
  exact WordView.after_edit_ofHistory _ text

/-- A new word is entered under a number that is new. -/
theorem Accounted.newWord {text : String} {ticket : Option Ticket} {view : WordView}
    (h : Accounted events x) (hword : x.session.view.setQuery text = .ok (ticket, view))
    (lines : List String) :
    Accounted (events ++ [.ran (.word text) lines]) (x.replaceWord ticket view) := by
  obtain ⟨hquery, hlatest, hpending, hticket⟩ := WordView.setQuery_eq_ok hword
  have hentries := entries_replaceWord hticket events lines view
  -- Nothing has the next number so far, so it stands in no place but that of the new word.
  have hnew : entries events x (x.session.view.latest + 1) = 0 := h.unused _ (Nat.lt_succ_self _)
  refine ⟨ofHistory_ran_word h.view hword lines, ?_, ?_, ?_, ?_, ?_, ?_⟩
  · intro t ht
    show t = ⟨view.latest, view.query⟩
    rw [hlatest, hquery]
    subst hticket
    by_cases hempty : text = ""
    · rw [if_pos hempty] at ht; cases ht
    · rw [if_neg hempty] at ht; cases ht; rfl
  · show lingering _ view.latest = 0
    rw [lingering_replaceWord, hlatest]
    unfold entries held at hnew
    omega
  · intro seq
    have hle := h.once seq
    rw [hentries]
    by_cases hseq : x.session.view.latest + 1 = seq
    · subst hseq
      rw [hnew]
      split <;> omega
    · rw [if_neg fun hboth => hseq hboth.1]
      exact hle
  · intro seq hseq
    replace hseq : x.session.view.latest + 1 < seq := hlatest ▸ hseq
    rw [hentries, h.unused seq (by omega), if_neg (by omega)]
  · show entries _ _ view.latest = if view.query = "" then 0 else 1
    rw [hentries, hlatest, hquery, hnew]
    by_cases hempty : text = "" <;> simp [hempty]
  · show view.isPending = true ↔ view.query ≠ "" ∧ verdicts _ view.latest = 0
    rw [hpending, hquery, verdicts_ran, hlatest]
    unfold entries at hnew
    exact ⟨fun hne => ⟨hne, by omega⟩, fun hboth => hboth.1⟩

/-! ### Checks that end -/

theorem Accounted.finish {ticket : Ticket} (h : Accounted events x)
    (hticket : x.session.inFlight = some ticket) (outcome : Outcome CheckResponse) :
    Accounted (events ++ [.finished outcome]) ⟨x.session.answer outcome, x.calledOff⟩ := by
  have hheld : ∀ seq, held ⟨x.session.answer outcome, x.calledOff⟩ seq = x.held seq := by
    intro seq
    simp [held, outstanding, lingering, queued, Session.answer_of_some hticket, hticket]
    omega
  have hhistory : history (events ++ [.finished outcome]) = history events :=
    history_concat_of_none rfl events
  refine h.moved (by rw [hhistory]) rfl ?_ ?_ (fun _ => Nat.le_refl _)
    (fun seq => Nat.le_of_eq (hheld seq)) (hheld _)
  · rw [Session.answer_of_some hticket]
  · rw [Session.answer_of_some hticket]
    exact nofun

theorem lingering_cons (s : Session) (before after : List Ticket) (ticket : Ticket) (seq : Nat) :
    lingering ⟨s, before ++ ticket :: after⟩ seq =
      lingering ⟨s, before ++ after⟩ seq + if ticket.seq = seq then 1 else 0 := by
  simp [lingering, List.count_cons]
  omega

theorem Accounted.vanish {s : Session} {before after : List Ticket} {ticket : Ticket}
    (h : Accounted events ⟨s, before ++ ticket :: after⟩) :
    Accounted (events ++ [.gone ticket none]) ⟨s, before ++ after⟩ := by
  have hlingering := lingering_cons s before after ticket
  have hheld : ∀ seq, held ⟨s, before ++ ticket :: after⟩ seq =
      held ⟨s, before ++ after⟩ seq + if ticket.seq = seq then 1 else 0 := by
    intro seq
    rw [held, hlingering, held]
    simp only [outstanding, queued]
    omega
  have hhistory : history (events ++ [.gone ticket none]) = history events :=
    history_concat_of_none rfl events
  refine h.moved (by rw [hhistory]) rfl rfl (fun _ => id) (fun seq => ?_) (fun seq => ?_) ?_
  · rw [hlingering]
    exact Nat.le_add_right _ _
  · rw [hheld]
    exact Nat.le_add_right _ _
  · -- The check belongs to an earlier edit, so the last number loses nothing.
    have hearlier := h.calledOff
    rw [hlingering] at hearlier
    rw [hheld]
    simp only [] at hearlier ⊢
    omega

theorem Accounted.slip {s : Session} {before after : List Ticket} {ticket : Ticket}
    (h : Accounted events ⟨s, before ++ ticket :: after⟩) (outcome : Outcome CheckResponse) :
    Accounted (events ++ [.gone ticket (some outcome)])
      ⟨{ s with replies := s.replies ++ [⟨ticket.seq, outcome⟩] }, before ++ after⟩ := by
  have hheld : ∀ seq,
      held ⟨{ s with replies := s.replies ++ [⟨ticket.seq, outcome⟩] }, before ++ after⟩ seq =
        held ⟨s, before ++ ticket :: after⟩ seq := by
    intro seq
    rw [held, held, lingering_cons]
    simp [outstanding, lingering, queued, List.count_singleton]
    omega
  have hhistory : history (events ++ [.gone ticket (some outcome)]) = history events :=
    history_concat_of_none rfl events
  refine h.moved (by rw [hhistory]) rfl rfl (fun _ => id) (fun seq => ?_)
    (fun seq => Nat.le_of_eq (hheld seq)) (hheld _)
  rw [lingering_cons]
  exact Nat.le_add_right _ _

/-! ### Answers that are received -/

theorem held_of_cons {reply : CheckReply} {rest : List CheckReply}
    (h : x.session.replies = reply :: rest) (view : WordView) (seq : Nat) :
    x.held seq =
      held ⟨{ x.session with replies := rest, view := view }, x.calledOff⟩ seq +
        if reply.seq = seq then 1 else 0 := by
  simp [held, outstanding, lingering, queued, h, List.count_cons]
  omega

/-- An answer with the last number is awaited, or else there would be two entries for it. -/
theorem Accounted.isPending {reply : CheckReply} {rest : List CheckReply}
    (h : Accounted events x) (hreplies : x.session.replies = reply :: rest)
    (hseq : reply.seq = x.session.view.latest) : x.session.view.isPending = true := by
  have hheld := held_of_cons hreplies x.session.view x.session.view.latest
  have hlast := h.last
  rw [if_pos hseq] at hheld
  rw [entries] at hlast
  refine h.pending.2 ⟨fun hempty => ?_, ?_⟩
  · rw [if_pos hempty] at hlast
    omega
  · split at hlast <;> omega

theorem Accounted.drop {reply : CheckReply} {rest : List CheckReply} (h : Accounted events x)
    (hreplies : x.session.replies = reply :: rest)
    (hdrop : ¬ (reply.seq = x.session.view.latest ∧ x.session.view.isPending = true)) :
    Accounted (events ++ [.received reply []])
      ⟨{ x.session with replies := rest }, x.calledOff⟩ := by
  have hheld := held_of_cons hreplies x.session.view
  refine h.moved ?_ rfl rfl (fun _ => id) (fun _ => Nat.le_refl _) (fun seq => ?_) ?_
  · have hsame : x.session.view.after (.answer reply.seq reply.outcome) = x.session.view := by
      refine WordView.apply_snd_of_fst_eq_false ?_
      rw [← Bool.not_eq_true, WordView.apply_fst_eq_true_iff]
      exact hdrop
    rw [history_concat, ← h.view, ← hsame, h.view, WordView.after_ofHistory]
    rfl
  · rw [hheld]
    exact Nat.le_add_right _ _
  · have hearlier : reply.seq ≠ x.session.view.latest := fun hseq =>
      hdrop ⟨hseq, h.isPending hreplies hseq⟩
    rw [hheld, if_neg hearlier, Nat.add_zero]

/-- The session after it received an answer that counts. -/
def conclude (x : LiveSession) (reply : CheckReply) (rest : List CheckReply) : LiveSession :=
  ⟨{ x.session with
      replies := rest
      view := { x.session.view with verdict := .ofOutcome reply.outcome } }, x.calledOff⟩

theorem verdicts_received {lines : List String} (hlines : lines ≠ [])
    (events : List SessionEvent) (reply : CheckReply) (seq : Nat) :
    verdicts (events ++ [.received reply lines]) seq =
      verdicts events seq + if reply.seq = seq then 1 else 0 := by
  obtain ⟨first, rest, rfl⟩ := List.exists_cons_of_ne_nil hlines
  rw [verdicts_concat, SessionEvent.verdict?]
  simp only [Option.some.injEq]

/-- A verdict that is printed moves a number from the queue to the verdicts. -/
theorem Accounted.count {reply : CheckReply} {rest : List CheckReply} {lines : List String}
    (h : Accounted events x) (hreplies : x.session.replies = reply :: rest)
    (hseq : reply.seq = x.session.view.latest) (hlines : lines ≠ []) :
    Accounted (events ++ [.received reply lines]) (x.conclude reply rest) := by
  have hpending := h.isPending hreplies hseq
  have hverdicts := verdicts_received hlines events reply
  have hentries : ∀ seq, entries (events ++ [.received reply lines]) (x.conclude reply rest) seq =
      entries events x seq := by
    intro seq
    have hheld : x.held seq =
        (x.conclude reply rest).held seq + if reply.seq = seq then 1 else 0 :=
      held_of_cons hreplies _ seq
    rw [entries, entries, hverdicts, hheld]
    omega
  refine ⟨?_, h.inFlight, h.calledOff, ?_, ?_, ?_, ?_⟩
  · have hafter : x.session.view.after (.answer reply.seq reply.outcome) =
        (x.conclude reply rest).session.view := by
      rw [WordView.after, WordView.apply, hseq, hpending, decide_eq_true rfl]
      rfl
    rw [history_concat, ← hafter, h.view, WordView.after_ofHistory]
    rfl
  · exact fun seq => (hentries seq).symm ▸ h.once seq
  · exact fun seq hlt => (hentries seq).symm ▸ h.unused seq hlt
  · exact (hentries _).trans h.last
  · refine iff_of_false ?_ fun hboth => ?_
    · exact Bool.eq_false_iff.1 (WordView.not_isPending_ofOutcome _ _ _)
    · have hzero : verdicts (events ++ [.received reply lines]) x.session.view.latest = 0 :=
        hboth.2
      rw [hverdicts, if_pos hseq] at hzero
      omega

theorem Accounted.step {e : SessionEvent} (h : Accounted events x) (hstep : Step x e y) :
    Accounted (events ++ [e]) y := by
  cases hstep with
  | @run _ c lines s hrun =>
      by_cases hc : ∀ text, c ≠ .word text
      · exact h.command hc hrun
      · obtain ⟨text, rfl⟩ := by simpa using hc
        rw [Session.execute_word] at hrun
        cases hset : x.session.view.setQuery text with
        | error e =>
            rw [Session.setWord_of_refused hset] at hrun
            cases hrun
            rw [Session.calledOffBy, hset]
            simpa using h.refusedWord hset _
        | ok new =>
            rw [Session.setWord_of_accepted hset] at hrun
            cases hrun
            rw [Session.calledOffBy, hset]
            exact h.newWord hset []
  | finish hticket outcome => exact h.finish hticket outcome
  | vanish => exact h.vanish
  | slip outcome => exact h.slip outcome
  | @receive _ reply rest hreplies =>
      by_cases hcounts : reply.seq = x.session.view.latest ∧ x.session.view.isPending = true
      · rw [Session.receive_of_awaited hreplies hcounts.1 hcounts.2]
        exact h.count hreplies hcounts.1 (Session.verdictLines_ne_nil _ _)
      · rw [Session.receive_of_not_awaited hreplies hcounts]
        exact h.drop hreplies hcounts

end Steps

theorem Run.accounted {g : Grammar} {events : List SessionEvent} {x : LiveSession}
    (h : Run (opening g) events x) : Accounted events x := by
  induction h with
  | nil => exact accounted_opening g
  | concat _ hstep ih => exact ih.step hstep

/-! ## What the books say -/

section Books

variable {events : List SessionEvent} {x : LiveSession}

theorem Accounted.of_pending {seq : Nat} (h : Accounted events x)
    (hseq : x.session.view.verdict = .pending seq) :
    (x.session.inFlight = some ⟨seq, x.session.view.query⟩ ∧ x.queued seq = 0) ∨
      (x.session.inFlight = none ∧ x.queued seq = 1) := by
  have hlatest : seq = x.session.view.latest := by
    rw [h.view] at hseq ⊢
    rw [WordView.latest_ofHistory]
    exact WordView.eq_editCount_of_pending hseq
  subst hlatest
  have hpending : x.session.view.isPending = true := by
    rw [WordView.isPending, hseq]
  obtain ⟨hword, hverdicts⟩ := h.pending.1 hpending
  have hsum := h.last
  rw [if_neg hword, entries, held, h.calledOff, hverdicts] at hsum
  cases hinFlight : x.session.inFlight with
  | none =>
      have hout : x.outstanding x.session.view.latest = 0 := by
        rw [outstanding, hinFlight]
        rfl
      exact .inr ⟨rfl, by omega⟩
  | some ticket =>
      obtain rfl := h.inFlight ticket hinFlight
      have hout : x.outstanding x.session.view.latest = 1 := by
        simp [outstanding, hinFlight]
      exact .inl ⟨rfl, by omega⟩

theorem Accounted.verdicts_le_one (h : Accounted events x) (seq : Nat) :
    verdicts events seq ≤ 1 :=
  Nat.le_trans (Nat.le_add_left _ _) (h.once seq)

/-- An answer counts if it has the last number, and the view waits. -/
theorem Accounted.awaits_iff (h : Accounted events x) (seq : Nat) :
    WordView.Awaits (history events) seq ↔
      seq = x.session.view.latest ∧ x.session.view.isPending = true := by
  rw [h.view, WordView.latest_ofHistory, WordView.isPending_ofHistory_iff]
  constructor
  · rintro ⟨word, since, hlast, hne, rfl, hfirst⟩
    exact ⟨rfl, word, since, hlast, hne, rfl, hfirst⟩
  · rintro ⟨rfl, hawaits⟩
    exact hawaits

theorem Accounted.query_eq {word : String} {since : List WordEvent} (h : Accounted events x)
    (hlast : WordView.lastEdit? (history events) = some (word, since)) :
    x.session.view.query = word := by
  rw [h.view, WordView.ofHistory, hlast]

/-- No word waits, and the last one has its verdict. -/
structure Settled (events : List SessionEvent) (x : LiveSession) : Prop where
  notPending : x.session.view.isPending = false
  answered : ∀ word since,
    WordView.lastEdit? (history events) = some (word, since) → word ≠ "" →
      verdicts events (WordView.editCount (history events)) = 1

theorem Accounted.settled (h : Accounted events x) (hinFlight : x.session.inFlight = none)
    (hreplies : x.session.replies = []) : Settled events x := by
  have hout : x.outstanding x.session.view.latest = 0 := by
    rw [outstanding, hinFlight]
    rfl
  have hqueued : x.queued x.session.view.latest = 0 := by
    rw [queued, hreplies]
    rfl
  have hsum := h.last
  rw [entries, held, hout, h.calledOff, hqueued] at hsum
  refine ⟨Bool.eq_false_iff.2 fun hpending => ?_, fun word since hlast hne => ?_⟩
  · obtain ⟨hword, hverdicts⟩ := h.pending.1 hpending
    rw [if_neg hword] at hsum
    omega
  · rw [h.query_eq hlast, if_neg hne, h.view, WordView.latest_ofHistory] at hsum
    omega

end Books

theorem Run.split {start z : LiveSession} {before after : List SessionEvent} {e : SessionEvent}
    (h : Run start (before ++ e :: after) z) : ∃ x y, Run start before x ∧ Step x e y := by
  generalize hall : before ++ e :: after = events at h
  induction h generalizing after with
  | nil => exact absurd hall (by simp)
  | @concat events last x y hrun hstep ih =>
      rcases List.eq_nil_or_concat after with rfl | ⟨rest, last', rfl⟩
      · obtain ⟨rfl, hone⟩ := List.append_inj' hall rfl
        cases hone
        exact ⟨x, y, hrun, hstep⟩
      · rw [List.concat_eq_append, ← List.cons_append, ← List.append_assoc] at hall
        exact ih (List.append_inj' hall rfl).1

/-- A verdict is printed for the word under test, and names it. -/
theorem Run.verdict_names_word {g : Grammar} {events before after : List SessionEvent}
    {x : LiveSession} {reply : CheckReply} {lines : List String} (h : Run (opening g) events x)
    (hevents : events = before ++ .received reply lines :: after) (hlines : lines ≠ []) :
    ∃ word since,
      WordView.lastEdit? (history before) = some (word, since) ∧ word ≠ "" ∧
      reply.seq = WordView.editCount (history before) ∧
      lines = Session.verdictLines word reply.outcome := by
  subst hevents
  obtain ⟨y, z, hrun, hstep⟩ := h.split
  have hbooks : Accounted before y := hrun.accounted
  cases hstep with
  | receive hreplies =>
      by_cases hcounts : reply.seq = y.session.view.latest ∧ y.session.view.isPending = true
      · obtain ⟨word, since, hlast, hne, hseq, -⟩ := (hbooks.awaits_iff reply.seq).2 hcounts
        refine ⟨word, since, hlast, hne, hseq, ?_⟩
        rw [Session.receive_of_awaited hreplies hcounts.1 hcounts.2, hbooks.query_eq hlast]
      · rw [Session.receive_of_not_awaited hreplies hcounts] at hlines
        exact absurd rfl hlines

end LiveSession

end LinearGrammar
